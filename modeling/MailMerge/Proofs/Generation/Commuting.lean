import MailMerge.Proofs.Generation.Finished

/-! Paragraphs are filled in either order. What filling a paragraph comes down to is read off one run: the texts that
are written, the way to finish and the notes. It is the same wherever the paragraph has the same text, and filling
another paragraph beside it leaves the text as it is. The two ways to finish are then done in one order or the other,
also where both paragraphs stand in one cell.
-/
namespace MailMerge
open Xml Docx Forest Relation Generation

namespace Fill
open Directive

/-- What a step comes down to: texts that are written, a way to finish, and notes. With these it is repeated in
every aligned state. -/
structure Script (t : Target) {α : Type} (step : Generation α) (setup : Setup) (s : Session) (a : α) (x : Finish)
    (texts : List (List Char)) : Prop where
  performs : ∃ s₁, perform t x texts setup s = .ok () s₁
  repeats : ∃ news notes, ∀ r r₁, s.Aligned r → perform t x texts setup r = .ok () r₁ →
    step setup r = .ok a (r₁.noted news notes)

namespace Script

variable {α β : Type} {t : Target} {setup : Setup} {s s' s'' : Session} {x : Finish} {texts texts' : List (List Char)}
  {step : Generation α} {next : α → Generation β} {a : α} {b : β}

theorem of_noting (noting : Noting step) (ran : step setup s = .ok a s') : Script t step setup s a .stay [] where
  performs := ⟨s,rfl⟩
  repeats := by
    obtain ⟨news,notes,again⟩ := noting.repeats ran
    refine ⟨news,notes,fun r r₁ aligned done => ?_⟩
    obtain rfl := (EStateM.Result.ok.inj done).2
    exact again r aligned

/-- A step that is nothing else. -/
theorem of_eq {step : Generation Unit} (same : perform t x texts = step) (ran : step setup s = .ok () s') :
    Script t step setup s () x texts where
  performs := ⟨s',same ▸ ran⟩
  repeats := ⟨[],#[],fun r r₁ _ done => by rw [r₁.noted_nil,← same,done]⟩

/-- The state after the step. -/
theorem exists_state (script : Script t step setup s a x texts) (ran : step setup s = .ok a s') :
    ∃ s₁ news notes, perform t x texts setup s = .ok () s₁ ∧ s' = s₁.noted news notes ∧
      ∀ r r₁, s.Aligned r → perform t x texts setup r = .ok () r₁ → s'.Aligned (r₁.noted news notes) ∧
        step setup r = .ok a (r₁.noted news notes) := by
  obtain ⟨⟨s₁,done⟩,news,notes,again⟩ := script
  obtain ⟨-,rfl⟩ := EStateM.Result.ok.inj (ran.symm.trans (again s s₁ (.refl s) done))
  refine ⟨s₁,news,notes,done,rfl,fun r r₁ aligned done' => ⟨?_,again r r₁ aligned done'⟩⟩
  have here := (local_perform t x texts).aligned done
  have there := (local_perform t x texts).aligned done'
  exact ⟨(there.part_eq.trans aligned.part_eq).trans here.part_eq.symm,
    (there.images_eq.trans aligned.images_eq).trans here.images_eq.symm⟩

/-- A step that does not finish the paragraph comes first. -/
theorem bind (first : Script t step setup s a .stay texts) (ran : step setup s = .ok a s')
    (second : Script t (next a) setup s' b x texts') : Script t (step >>= next) setup s b x (texts ++ texts') := by
  obtain ⟨s₁,news,notes,done,rfl,again⟩ := first.exists_state ran
  obtain ⟨⟨s₂,done'⟩,news',notes',again'⟩ := second
  have all := perform_append t x texts texts'
  have done'' := (local_perform t x texts').eq_withTree done' (r := s₁) rfl rfl
  refine ⟨⟨_,all ▸ (bind_ok done).trans done''⟩,news ++ news',notes ++ notes',fun r r₂ aligned ran => ?_⟩
  obtain ⟨_,r₁,first,second⟩ := exists_of_bind_ok (all ▸ ran)
  obtain ⟨aligned',here⟩ := again r r₁ aligned first
  rw [bind_ok here,← Session.noted_noted]
  exact again' _ _ aligned' ((local_perform t x texts').noted second news notes)

/-- A step that takes notes comes last. -/
theorem bind_noting (first : Script t step setup s a x texts) (ran : step setup s = .ok a s')
    (noting : Noting (next a)) (later : next a setup s' = .ok b s'') :
    Script t (step >>= next) setup s b x texts := by
  obtain ⟨s₁,news,notes,done,rfl,again⟩ := first.exists_state ran
  obtain ⟨news',notes',again'⟩ := noting.repeats later
  refine ⟨⟨s₁,done⟩,news ++ news',notes ++ notes',fun r r₁ aligned ran => ?_⟩
  obtain ⟨aligned',here⟩ := again r r₁ aligned ran
  rw [bind_ok here,again' _ aligned',Session.noted_noted]

end Script

/-- Whatever wanted result a step gives, it comes down to texts and a way to finish that fit the result. -/
def Plays (t : Target) {α : Type} (want : α → Prop) (fits : α → Finish → List (List Char) → Prop) (setup : Setup)
    (step : Generation α) (s : Session) : Prop :=
  ∀ a s', step setup s = .ok a s' → want a → ∃ x texts, fits a x texts ∧ Script t step setup s a x texts

namespace Plays

variable {α β : Type} {t : Target} {setup : Setup} {s : Session} {want : β → Prop}
  {fits : β → Finish → List (List Char) → Prop} {step : Generation α} {next : α → Generation β}

theorem of_pure {b : β} (fit : fits b .stay []) : Plays t want fits setup (pure b) s := by
  intro b' s' ran _
  obtain ⟨rfl,-⟩ := EStateM.Result.ok.inj ran
  exact ⟨.stay,[],fit,.of_noting (.of_pure b) ran⟩

theorem of_look_setup {next : Setup → Generation β} (plays : Plays t want fits setup (next setup) s) :
    Plays t want fits setup (read >>= next) s := by
  intro b s' ran wanted
  obtain ⟨x,texts,fit,script⟩ := plays b s' ran wanted
  exact ⟨x,texts,fit,script.performs,script.repeats⟩

/-- Notes come first. -/
theorem of_noting (noting : Noting step)
    (each : ∀ a s', step setup s = .ok a s' → Plays t want fits setup (next a) s') :
    Plays t want fits setup (step >>= next) s := by
  intro b s'' ran wanted
  obtain ⟨a,s',first,later⟩ := exists_of_bind_ok ran
  obtain ⟨x,texts,fit,script⟩ := each a s' first b s'' later wanted
  exact ⟨x,texts,fit,(Script.of_noting noting first).bind first script⟩

/-- Only notes come after what is done. -/
theorem of_script {x : Finish} {texts : List (List Char)} {step : Generation Unit} {next : Unit → Generation β}
    (same : perform t x texts = step) (noting : Noting (next ()))
    (fit : ∀ s', Gives setup (next ()) s' fun b _ => fits b x texts) :
    Plays t want fits setup (step >>= next) s := by
  intro b s'' ran _
  obtain ⟨_,s',first,later⟩ := exists_of_bind_ok ran
  exact ⟨x,texts,fit s' b s'' later,(Script.of_eq same first).bind_noting first noting later⟩

/-- A step is tried that takes notes at most when it fails. -/
theorem of_guarded {next : Except Fault α → Generation β} (cautious : Cautious step)
    (unwanted : ∀ a s', Gives setup (next (.ok a)) s' fun b _ => ¬ want b)
    (failed : ∀ fault s', Plays t want fits setup (next (.error fault)) s') :
    Plays t want fits setup (guarded step >>= next) s := by
  intro b s'' ran wanted
  obtain ⟨result,s',first,later⟩ := exists_of_bind_ok ran
  rcases guarded_cases first with ⟨a,rfl,-⟩ | ⟨fault,rfl,own,stopped⟩
  · exact absurd wanted (unwanted a s' b s'' later)
  · obtain ⟨x,texts,fit,script⟩ := failed fault s' b s'' later wanted
    obtain ⟨news,notes,again⟩ := cautious setup s fault s' stopped own
    have quiet : Script t (guarded step) setup s (.error fault) .stay [] := by
      refine ⟨⟨s,rfl⟩,news,notes,fun r r₁ aligned done => ?_⟩
      obtain rfl := (EStateM.Result.ok.inj done).2
      simp only [guarded,again r aligned,own,if_true]
    exact ⟨x,texts,fit,quiet.bind first script⟩

end Plays

/-- No chart and no image came in the place of a paragraph. -/
def Ending.Undrawn (e : Ending) : Prop :=
  e ≠ .becameChart ∧ e ≠ .becameImage

/-- No chart and no image came of a rule. -/
def Step.Undrawn : Step → Prop
  | .ended e => e.Undrawn
  | _ => True

/-- A rule that does not end the work does nothing but take notes. -/
def Step.Fits : Step → Finish → List (List Char) → Prop
  | .ended _, _, _ => True
  | _, x, texts => x = .stay ∧ texts = []

/-- What a rule does comes down to texts and a way to finish. -/
def Playing (rule : Target → List Char → Generation Step) : Prop :=
  ∀ t text setup s, Plays t Step.Undrawn Step.Fits setup (rule t text) s

theorem noting_end {kind : Kind} {key : Value} {status : Status} {reason : String} {α : Type} (a : α) :
    Noting (do
      record kind key status reason
      return a) :=
  .of_bind (.of_record _ _ _ _) fun _ => .of_pure a

theorem perform_text (t : Target) (text : List Char) : perform t .stay [text] = t.write text :=
  bind_pure _

theorem playing_formatRule : Playing formatRule := by
  intro t text setup s
  unfold formatRule
  split
  · exact .of_pure ⟨rfl,rfl⟩
  · refine .of_noting (noting_formatAll text _) fun formatted s₁ _ => ?_
    split
    · exact .of_pure ⟨rfl,rfl⟩
    · exact .of_script (perform_text t formatted) (.of_pure _) fun _ => .of_pure trivial

theorem playing_textRule : Playing textRule := by
  intro t text setup s
  unfold textRule
  split
  · exact .of_pure ⟨rfl,rfl⟩
  · refine .of_noting (.of_mapM noting_placeholderText _) fun texts s₁ _ => ?_
    exact .of_script (perform_text t _) (.of_pure _) fun _ => .of_pure trivial

theorem playing_loopRule : Playing loopRule := by
  intro t text setup s
  unfold loopRule
  split
  · refine .of_noting (noting_valueAt _) fun value s₁ _ => ?_
    split
    · refine .of_noting (.of_ofExcept _) fun rendered s₂ _ => ?_
      exact .of_script (perform_text t _) (noting_end _) fun _ => .of_bind fun _ _ _ => .of_pure trivial
    · exact .of_noting (.of_record _ _ _ _) fun _ _ _ => .of_pure ⟨rfl,rfl⟩
  · exact .of_pure ⟨rfl,rfl⟩

theorem playing_chartRule : Playing chartRule := by
  intro t text setup s
  unfold chartRule
  split
  · refine .of_noting (noting_valueAt _) fun value s₁ _ => ?_
    split
    · refine .of_guarded (Embed.cautious_chart _ _ _) (fun shown _ => ?_) fun fault _ => ?_
      · refine .of_bind fun _ _ _ => .of_bind fun _ _ _ => .of_bind fun _ _ _ => .of_pure ?_
        exact fun undrawn => undrawn.1 rfl
      · exact .of_noting (.of_record _ _ _ _) fun _ _ _ => .of_pure ⟨rfl,rfl⟩
    · exact .of_noting (.of_record _ _ _ _) fun _ _ _ => .of_pure ⟨rfl,rfl⟩
  · exact .of_pure ⟨rfl,rfl⟩

theorem playing_imageRule : Playing imageRule := by
  intro t text setup s
  unfold imageRule
  split
  · refine .of_noting (noting_valueAt _) fun value s₁ _ => ?_
    split
    · split
      · exact .of_noting (.of_record _ _ _ _) fun _ _ _ => .of_pure ⟨rfl,rfl⟩
      · refine .of_look_setup (.of_noting (noting_lengthAt _ _) fun width _ _ =>
          .of_noting (noting_lengthAt _ _) fun height _ _ => ?_)
        refine .of_guarded (Embed.cautious_fetched _ _ _) (fun shown _ => ?_) fun fault _ => ?_
        · refine .of_bind fun _ _ _ => .of_bind fun _ _ _ => .of_bind fun _ _ _ => .of_pure ?_
          exact fun undrawn => undrawn.2 rfl
        · exact .of_noting (.of_record _ _ _ _) fun _ _ _ => .of_pure ⟨rfl,rfl⟩
    · exact .of_noting (.of_record _ _ _ _) fun _ _ _ => .of_pure ⟨rfl,rfl⟩
  · exact .of_pure ⟨rfl,rfl⟩

theorem playing_tableRule : Playing tableRule := by
  intro t text setup s
  unfold tableRule
  split
  · refine .of_noting (noting_valueAt _) fun value s₁ _ => ?_
    split
    · refine .of_look_setup (.of_noting (.of_guarded (.of_ofExcept _)) fun result s₂ _ => ?_)
      cases result with
      | error fault => exact .of_noting (.of_record _ _ _ _) fun _ _ _ => .of_pure ⟨rfl,rfl⟩
      | ok element =>
        have same : perform t (.become element) [] = (plant element >>= putTable t.paragraph) := rfl
        dsimp only
        rw [← bind_assoc]
        exact .of_script same (.of_bind (.of_log _ _) fun _ => noting_end _) fun _ => .of_bind fun _ _ _ =>
          .of_bind fun _ _ _ => .of_pure trivial
    · exact .of_noting (.of_record _ _ _ _) fun _ _ _ => .of_pure ⟨rfl,rfl⟩
  · exact .of_pure ⟨rfl,rfl⟩

theorem playing_of_mem_rules : ∀ rule ∈ rules, Playing rule := by
  simp only [rules,List.forall_mem_cons]
  exact ⟨playing_tableRule,playing_chartRule,playing_imageRule,playing_formatRule,playing_loopRule,
    playing_textRule,by simp⟩

/-- Rules that are tried in order do what the last of them does. -/
theorem plays_tryRules (t : Target) (text : List Char) (setup : Setup) (s : Session)
    {rules : List (Target → List Char → Generation Step)} (playing : ∀ rule ∈ rules, Playing rule) :
    Plays t (fun found => ∀ e ∈ found, e.Undrawn) (fun _ _ _ => True) setup (tryRules t text rules) s := by
  induction rules generalizing s with
  | nil => exact .of_pure trivial
  | cons rule rules ih =>
    intro found s'' ran wanted
    obtain ⟨step,s',first,later⟩ := exists_of_bind_ok ran
    have plays := playing rule List.mem_cons_self t text setup s step s' first
    cases step with
    | next =>
      obtain ⟨x,texts,⟨rfl,rfl⟩,script⟩ := plays trivial
      obtain ⟨x,texts,-,script'⟩ := ih s' (fun rule member => playing rule (List.mem_cons_of_mem _ member)) found s''
        later wanted
      exact ⟨x,texts,trivial,script.bind first script'⟩
    | halt =>
      obtain ⟨x,texts,-,script⟩ := plays trivial
      exact ⟨x,texts,trivial,script.bind_noting first (.of_pure none) later⟩
    | ended e =>
      obtain ⟨rfl,-⟩ := EStateM.Result.ok.inj later
      obtain ⟨x,texts,-,script⟩ := plays (wanted e rfl)
      exact ⟨x,texts,trivial,script.bind_noting first (.of_pure (some e)) later⟩

/-- Conditional blocks are resolved by notes, unless one of them takes the paragraph out. -/
theorem plays_resolveBlocks (t : Target) (fuel : Nat) (text : List Char) (pos : Nat) (met : Bool) (setup : Setup)
    (s : Session) : Plays t (fun _ => True) (fun left x texts => left.1.isSome → x = .stay ∧ texts = []) setup
      (resolveBlocks fuel t.paragraph text pos met) s := by
  induction fuel generalizing text pos met s with
  | zero => exact .of_pure fun _ => ⟨rfl,rfl⟩
  | succ fuel ih =>
    unfold resolveBlocks
    split
    · exact .of_pure fun _ => ⟨rfl,rfl⟩
    · refine .of_noting (noting_holds _) fun verdict s₁ _ => ?_
      split
      · exact .of_noting (.of_record _ _ _ _) fun _ _ _ => ih _ _ _ _
      · have same : perform t .leave [] = removeParagraph t.paragraph := rfl
        exact .of_script same (noting_end _) fun _ => .of_bind fun _ _ _ => .of_pure fun left => nomatch left

/-- What is done with a paragraph that is in the tree. -/
def work (t : Target) (text : List Char) : Generation Ending := do
  if !text.contains '\x7b' then return .unchanged
  match ← resolveBlocks (text.length + 1) t.paragraph text 0 false with
  | (none,_) => return .deleted
  | (some text,met) =>
    if met then t.write text
    match ← tryRules t text rules with
    | some e => return e
    | none => return if met then .rewritten else .unchanged

theorem paragraph_eq_work {p : NodeId} {setup : Setup} {s : Session} (attached : s.index.isAttached p = true) :
    paragraph p setup s = work ⟨p,s.package.forest.textElements p⟩ (s.package.forest.paragraphText p) setup s := by
  have looked : isAttached p setup s = .ok true s := congrArg (EStateM.Result.ok · s) attached
  exact (bind_ok looked).trans rfl

/-- When the blocks are resolved, the text that is left is written if there were any; then the rules are tried. -/
private theorem plays_rules (t : Target) (text : List Char) (met : Bool) (setup : Setup) (s : Session) :
    Plays t Ending.Undrawn (fun _ _ _ => True) setup (do
      if met then t.write text
      match ← tryRules t text rules with
      | some e => return e
      | none => return if met then .rewritten else .unchanged) s := by
  have tried (s : Session) : Plays t Ending.Undrawn (fun _ _ _ => True) setup (do
      match ← tryRules t text rules with
      | some e => return e
      | none => return if met then .rewritten else .unchanged) s := by
    intro e s'' ran wanted
    obtain ⟨found,s',first,later⟩ := exists_of_bind_ok ran
    have plays := plays_tryRules t text setup s playing_of_mem_rules found s' first
    cases found with
    | none =>
      obtain ⟨x,texts,-,script⟩ := plays (by simp)
      exact ⟨x,texts,trivial,script.bind_noting first (.of_pure _) later⟩
    | some e' =>
      obtain rfl := (EStateM.Result.ok.inj later).1
      obtain ⟨x,texts,-,script⟩ := plays (by simpa using wanted)
      exact ⟨x,texts,trivial,script.bind_noting first (.of_pure e') later⟩
  cases met with
  | false => exact tried s
  | true =>
    intro e s'' ran wanted
    obtain ⟨_,s',first,later⟩ := exists_of_bind_ok ran
    obtain ⟨x,texts,-,script⟩ := tried s' e s'' later wanted
    exact ⟨x,_,trivial,(Script.of_eq (perform_text t text) first).bind first script⟩

theorem plays_work (t : Target) (text : List Char) (setup : Setup) (s : Session) :
    Plays t Ending.Undrawn (fun _ _ texts => texts ≠ [] → text.contains '\x7b' = true) setup (work t text) s := by
  unfold work
  split
  · exact .of_pure fun some => absurd rfl some
  · next braced =>
    have braced : text.contains '\x7b' = true := by simpa using braced
    intro e s'' ran wanted
    obtain ⟨left,s',first,later⟩ := exists_of_bind_ok ran
    obtain ⟨x,texts,fit,script⟩ := plays_resolveBlocks t _ text 0 false setup s left s' first trivial
    obtain ⟨left,met⟩ := left
    cases left with
    | none => exact ⟨x,texts,fun _ => braced,script.bind_noting first (.of_pure _) later⟩
    | some text' =>
      obtain ⟨rfl,rfl⟩ := fit rfl
      obtain ⟨x,texts,-,script'⟩ := plays_rules t text' met setup s' e s'' later wanted
      exact ⟨x,_,fun _ => braced,script.bind first script'⟩

/-- A paragraph of a forest with its text elements. -/
def target (f : Forest) (p : NodeId) : Target :=
  ⟨p,f.textElements p⟩

/-- What filling a paragraph comes down to, wherever its text is the same. -/
structure Filling (setup : Setup) (s : Session) (p : NodeId) (e : Ending) (x : Finish) (texts : List (List Char))
    (news : List Outcome) (notes : Journal) : Prop where
  filled : texts ≠ [] → s.package.forest.textElements p ≠ []
  again : ∀ r r₁, s.Aligned r → perform (target s.package.forest p) x texts setup r = .ok () r₁ →
    work (target s.package.forest p) (s.package.forest.paragraphText p) setup r = .ok e (r₁.noted news notes)

variable {setup : Setup} {s s' s₁ t₁ : Session} {p q m m' : NodeId} {e e' : Ending} {x y : Finish}
  {texts texts' : List (List Char)} {news news' : List Outcome} {notes notes' : Journal}

theorem exists_filling (attached : s.index.isAttached p = true) (ran : paragraph p setup s = .ok e s')
    (undrawn : e.Undrawn) : ∃ x texts news notes s₁, Filling setup s p e x texts news notes ∧
      perform (target s.package.forest p) x texts setup s = .ok () s₁ ∧ s' = s₁.noted news notes := by
  rw [paragraph_eq_work attached] at ran
  obtain ⟨x,texts,fit,script⟩ := plays_work _ _ setup s e s' ran undrawn
  obtain ⟨s₁,news,notes,done,rfl,again⟩ := script.exists_state ran
  refine ⟨x,texts,news,notes,s₁,⟨fun some none => ?_,fun r r₁ aligned done => (again r r₁ aligned done).2⟩,done,rfl⟩
  have braced := fit some
  simp [paragraphText,joinedText,none] at braced

theorem wordings_of_notMem {t : Target} {n : NodeId} (absent : n ∉ t.elements) (texts : List (List Char))
    (node : Node) : wordings t texts n node = node := by
  induction texts generalizing node with
  | nil => rfl
  | cons text texts ih =>
    rw [wordings,List.foldl_cons,wording_of_notMem absent]
    exact ih node

/-- A paragraph was finished, beside which another one stands. -/
structure Beside (s : Session) (p m q m' : NodeId) : Prop where
  truthful : s.index.Truthful s.package.forest
  seats : s.index.Seats s.package.forest p m
  seats' : s.index.Seats s.package.forest q m'
  apart : ¬ s.package.forest.Below p q
  apart' : ¬ s.package.forest.Below q p

namespace Beside

theorem symm (beside : Beside s p m q m') : Beside s q m' p m :=
  ⟨beside.truthful,beside.seats',beside.seats,beside.apart',beside.apart⟩

theorem ne (beside : Beside s p m q m') : p ≠ q :=
  fun same => beside.apart (same ▸ ReflTransGen.refl)

/-- No text element is one of both. -/
theorem notMem_textElements (beside : Beside s p m q m') {n : NodeId} (path : s.package.forest.Below q n) :
    n ∉ s.package.forest.textElements p := by
  obtain ⟨_,sorted⟩ := beside.truthful.acyclic.sorted
  intro member
  obtain ⟨-,run,above,-,below⟩ := (mem_textElements_iff sorted).mp member
  rcases beside.truthful.single.total beside.seats.path beside.seats'.path (above.trans below) path with here | here
  · exact beside.apart here
  · exact beside.apart' here

/-- Writing into one of them and writing into the other commute. -/
theorem wordings_comm (beside : Beside s p m q m') (texts texts' : List (List Char)) (n : NodeId) (node : Node) :
    wordings (target s.package.forest p) texts n (wordings (target s.package.forest q) texts' n node) =
      wordings (target s.package.forest q) texts' n (wordings (target s.package.forest p) texts n node) := by
  by_cases member : n ∈ s.package.forest.textElements q
  · obtain ⟨_,sorted⟩ := beside.truthful.acyclic.sorted
    obtain ⟨-,run,above,-,below⟩ := (mem_textElements_iff sorted).mp member
    have absent : n ∉ (target s.package.forest p).elements := beside.notMem_textElements (above.trans below)
    rw [wordings_of_notMem absent,wordings_of_notMem absent]
  · have absent : n ∉ (target s.package.forest q).elements := member
    rw [wordings_of_notMem absent,wordings_of_notMem absent]

/-- What was done when the first of them was finished. -/
theorem does (beside : Beside s p m q m') (filling : Filling setup s p e x texts news notes)
    (done : perform (target s.package.forest p) x texts setup s = .ok () s₁) :
    Does s.package.forest p m x (wordings (target s.package.forest p) texts) s s₁ := by
  have truthful := beside.truthful
  obtain ⟨_,sorted⟩ := truthful.acyclic.sorted
  obtain ⟨s',ran,does⟩ := exists_perform (t := target s.package.forest p) (.refl truthful.acyclic)
    (beside.seats.lt truthful) beside.seats.parent_lt beside.seats.known (beside.seats.countP_view truthful)
      (fun n member => lt_size_of_mem_textElements sorted member) filling.filled setup x
  obtain ⟨-,rfl⟩ := EStateM.Result.ok.inj (ran.symm.trans done)
  exact does

variable (beside : Beside s p m q m')
  (does : Does s.package.forest p m x (wordings (target s.package.forest p) texts) s s₁)
include beside does

/-- What is below the other paragraph is as it was. -/
theorem node_eq {n : NodeId} (path : s.package.forest.Below q n) :
    s₁.package.forest.node n = s.package.forest.node n := by
  have truthful := beside.truthful
  have inside : n < s.package.forest.nodes.size := by
    rcases ReflTransGen.cases_tail path with rfl | ⟨k,-,here⟩
    · exact beside.seats'.lt truthful
    · exact truthful.acyclic.inside k n here
  have absent : n ∉ (target s.package.forest p).elements := beside.notMem_textElements path
  have other : n ≠ m := by
    rintro rfl
    exact beside.apart' (path.tail beside.seats.child)
  refine node_eq_of_face ?_ (does.advances.children_eq n inside other)
  rw [does.advances.face_eq n inside,wordings_of_notMem absent]

/-- The other paragraph is still in the tree, with its text. -/
theorem spares (attached : s.index.isAttached q = true) : s₁.index.isAttached q = true ∧
    s₁.package.forest.textElements q = s.package.forest.textElements q ∧
      s₁.package.forest.paragraphText q = s.package.forest.paragraphText q := by
  obtain ⟨_,sorted⟩ := beside.truthful.acyclic.sorted
  obtain ⟨_,sorted₁⟩ := does.advances.since.acyclic.sorted
  have closed : ∀ n, s.package.forest.Below q n → ∀ c ∈ s.package.forest.children n, s.package.forest.Below q c :=
    fun n path c here => path.tail here
  have same : ∀ n, s.package.forest.Below q n → s₁.package.forest.node n = s.package.forest.node n :=
    fun n path => beside.node_eq does path
  exact ⟨beside.truthful.isAttached_of_apart does.apart attached (beside.seats'.lt beside.truthful) beside.apart,
    textElements_congr sorted sorted₁ closed same ReflTransGen.refl,
    paragraphText_congr sorted sorted₁ closed same ReflTransGen.refl⟩

/-- The other paragraph can be filled afterwards as it could be filled before. -/
theorem follow (attached : s.index.isAttached q = true) (filling : Filling setup s q e' y texts' news' notes')
    (news : List Outcome) (notes : Journal) : ∃ s₂,
      paragraph q setup (s₁.noted news notes) = .ok e' ((s₂.noted news notes).noted news' notes') ∧
        Does s.package.forest q m' y (wordings (target s.package.forest q) texts') s₁ s₂ := by
  have truthful := beside.truthful
  obtain ⟨_,sorted⟩ := truthful.acyclic.sorted
  obtain ⟨attached₁,elements,text⟩ := beside.spares does attached
  have former := beside.seats'.lt truthful
  have known : s₁.index.parent? q = some m' := by
    rw [does.apart.parent?_eq q former beside.ne.symm,beside.seats'.known]
  have once : (s.package.forest.view s₁.package.forest m').countP (·.isOld q) = 1 := by
    rw [← beside.seats'.countP_view truthful,does.view_at (.refl truthful.acyclic) beside.seats'.parent_lt]
    split
    · rw [x.countP_act beside.ne]
    · rfl
  obtain ⟨s₂,ran,does'⟩ := exists_perform (t := target s.package.forest q) does.advances.since former
    beside.seats'.parent_lt known once (fun n member => lt_size_of_mem_textElements sorted member)
      filling.filled setup y
  refine ⟨s₂,?_,does'⟩
  have aligned : s.Aligned (s₁.noted news notes) := by
    rw [does.tree_eq]
    exact ⟨rfl,rfl⟩
  have elements' : (s₁.noted news notes).package.forest.textElements q = s.package.forest.textElements q := elements
  have text' : (s₁.noted news notes).package.forest.paragraphText q = s.package.forest.paragraphText q := text
  refine (paragraph_eq_work (s := s₁.noted news notes) attached₁).trans ?_
  rw [elements',text']
  exact filling.again _ _ aligned ((local_perform _ _ _).noted ran news notes)

end Beside

/-- Two paragraphs of a tree, neither of them inside the other, are filled in either order with the same endings, the
same outcomes for each and the same tree, if filling them raises nothing and puts no chart and no image in. -/
theorem paragraphs_commute (truthful : s.index.Truthful s.package.forest) (attached : s.index.isAttached p = true)
    (attached' : s.index.isAttached q = true) (kind : s.package.forest.name p = paragraphName)
    (kind' : s.package.forest.name q = paragraphName) (apart : ¬ s.package.forest.Below p q)
    (apart' : ¬ s.package.forest.Below q p) (ran : paragraph p setup s = .ok e s₁)
    (ran' : paragraph q setup s = .ok e' t₁) (undrawn : e.Undrawn) (undrawn' : e'.Undrawn) :
    ∃ s₂ t₂ news news', paragraph q setup s₁ = .ok e' s₂ ∧ paragraph p setup t₁ = .ok e t₂ ∧
      SameTree s.package.forest.nodes.size s₂.package.forest t₂.package.forest s.index.root ∧
        s₁.outcomes = s.outcomes ++ news ∧ s₂.outcomes = s₁.outcomes ++ news' ∧
          t₁.outcomes = s.outcomes ++ news' ∧ t₂.outcomes = t₁.outcomes ++ news := by
  have path := truthful.below_of_isAttached attached
  have path' := truthful.below_of_isAttached attached'
  obtain ⟨m,seats⟩ := truthful.exists_seats attached fun top => apart (top ▸ path')
  obtain ⟨m',seats'⟩ := truthful.exists_seats attached' fun top => apart' (top ▸ path)
  have beside : Beside s p m q m' := ⟨truthful,seats,seats',apart,apart'⟩
  obtain ⟨x,texts,news,notes,s₁,filling,done,rfl⟩ := exists_filling attached ran undrawn
  obtain ⟨y,texts',news',notes',t₁,filling',done',rfl⟩ := exists_filling attached' ran' undrawn'
  have does := beside.does filling done
  have does' := beside.symm.does filling' done'
  obtain ⟨s₂,again,does₂⟩ := beside.follow does attached' filling' news notes
  obtain ⟨t₂,again',does₂'⟩ := beside.symm.follow does' attached filling news' notes'
  have since := Since.refl truthful.acyclic
  refine ⟨_,_,news,news',again,again',?_,?_,?_,?_,?_⟩
  · refine sameTree_of_views does₂.advances.since does₂'.advances.since (fun n former => ?_) (fun n former => ?_)
      truthful.inside
    · exact (does₂'.advances.face_eq n former).trans (by
        rw [does'.advances.face_eq n former,beside.wordings_comm,← does.advances.face_eq n former,
          ← does₂.advances.face_eq n former])
    · refine (does₂'.view_at does'.advances.since former).trans (.trans ?_
        (does₂.view_at does.advances.since former).symm)
      rw [does.view_at since former,does'.view_at since former]
      by_cases here : n = m
      · by_cases there : n = m'
        · subst here
          subst there
          rw [if_pos rfl,if_pos rfl,if_pos rfl,if_pos rfl]
          exact x.act_comm y beside.ne kind kind' (seats.mem_view truthful) (seats'.mem_view truthful)
        · rw [if_pos here,if_neg there,if_neg there,if_pos here]
      · rw [if_neg here,if_neg here]
  · exact congrArg (· ++ news) does.outcomes_eq
  · exact congrArg (· ++ news') (congrArg (· ++ news) does₂.outcomes_eq)
  · exact congrArg (· ++ news') does'.outcomes_eq
  · exact congrArg (· ++ news) (congrArg (· ++ news') does₂'.outcomes_eq)

/-- A cell with a paragraph that stays under a condition only and one that asks for a table. -/
def sharedCell : Forest :=
  ⟨#[⟨cellName,[],none,[1,4],none⟩,
    ⟨paragraphName,[],none,[2],none⟩,⟨runName,[],none,[3],none⟩,
    ⟨textName,[],some "\x7b#if a\x7dx\x7b/if\x7d",[],none⟩,
    ⟨paragraphName,[],none,[5],none⟩,⟨runName,[],none,[6],none⟩,
    ⟨textName,[],some "\x7b%table:b\x7d",[],none⟩]⟩

private def sharedSetup : Setup where
  data := .map [(.text "b",.list [.map [(.text "c",.text "d")]])]

private def sharedSession : Session where
  package := { forest := sharedCell }
  index := .of sharedCell 0

private theorem truthful_shared : sharedSession.index.Truthful sharedSession.package.forest := by
  have steps : ∀ parent < 7, ∀ child ∈ sharedCell.children parent, child < 7 ∧ parent < child := by decide
  have sorted : sharedCell.Sorted (fun _ => ()) id :=
    ⟨fun parent child here => by
      obtain ⟨small,larger⟩ := steps parent (sharedCell.lt_size_of_child here) child here
      exact ⟨small,rfl,larger⟩,fun _ small => small⟩
  exact (Index.current_of sorted.acyclic (by decide) (by decide)).truthful

private theorem shared_runs : (match paragraph 1 sharedSetup sharedSession, paragraph 4 sharedSetup sharedSession with
    | .ok e _, .ok e' _ => e == .deleted && e' == .becameTable
    | _, _ => false) = true := by
  decide +kernel

theorem paragraphs_commute_cell : ∃ (setup : Setup) (s s₁ t₁ s₂ t₂ : Session), s.package.forest.name 0 = cellName ∧
    s.package.forest.children 0 = [1,4] ∧ paragraph 1 setup s = .ok .deleted s₁ ∧
      paragraph 4 setup s = .ok .becameTable t₁ ∧ paragraph 4 setup s₁ = .ok .becameTable s₂ ∧
        paragraph 1 setup t₁ = .ok .deleted t₂ ∧
          SameTree s.package.forest.nodes.size s₂.package.forest t₂.package.forest s.index.root := by
  have runs := shared_runs
  split at runs
  · next e s₁ e' t₁ ran ran' =>
    obtain ⟨deleted,became⟩ := Bool.and_eq_true_iff.mp runs
    obtain rfl := eq_of_beq deleted
    obtain rfl := eq_of_beq became
    have below {a b : NodeId} (apart : b ∉ sharedCell.tree a) : ¬ sharedCell.Below a b := fun path =>
      apart (truthful_shared.acyclic.mem_tree_iff.mpr path)
    obtain ⟨s₂,t₂,_,_,again,again',same,-⟩ := paragraphs_commute truthful_shared (by decide) (by decide) (by decide)
      (by decide) (below (by decide)) (below (by decide)) ran ran' ⟨by decide,by decide⟩ ⟨by decide,by decide⟩
    exact ⟨sharedSetup,sharedSession,s₁,t₁,s₂,t₂,by decide,by decide,ran,ran',again,again',same⟩
  · exact absurd runs Bool.false_ne_true

end Fill
end MailMerge
