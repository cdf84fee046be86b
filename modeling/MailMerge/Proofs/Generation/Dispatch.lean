import MailMerge.Proofs.Generation.Blocks
import MailMerge.Proofs.Generation.Formats
import MailMerge.Proofs.Generation.Placeholders
import MailMerge.Proofs.Generation.Tacit

/-! The order of precedence. It is told twice: the lexer looks for the kinds one after the other, and a
paragraph is handed from rule to rule. Both stop at the first kind that occurs in the text; only formats that
change nothing and a loop over nothing let a later rule have its turn.
-/
namespace MailMerge.Fill
open Directive Generation

/-- The kinds in the order in which rules are tried for them. -/
def ruleOrder : List Kind :=
  [.table,.chart,.image,.format,.loop,.text]

/-- Whether a directive of a kind occurs in a text. -/
def occurs (text : List Char) : Kind → Bool
  | .conditional => !(all conditional? text).isEmpty
  | .table => (first? table? text).isSome
  | .chart => (first? chart? text).isSome
  | .image => (first? image? text).isSome
  | .format => !(all format? text).isEmpty
  | .loop => (first? loop? text).isSome
  | .text => !(all placeholder? text).isEmpty
  | _ => false

/-- A text in which the values of format tags were put one after the other. -/
def replaced (data : Value) (text : List Char) (found : List (Found FormatTag)) : List Char :=
  found.foldl (fun text f => Text.replaceFirst f.raw (written (formatted data f.value)) text) text

/-- After the directives of a kind the rules go on to the next kind. -/
def Passes (data : Value) (text : List Char) : Kind → Prop
  | .format => replaced data text (all format? text) = text
  | .loop => ∃ found, first? loop? text = some found ∧ items? (data.resolve found.value.key) = none
  | _ => False

/-- Outcomes begin with the kind of the directives found, and there are none where none were found. -/
structure Leads (found : List (Found Lexeme)) (news : List Outcome) : Prop where
  none : found = [] → news = []
  some : ∀ f ∈ found, ∃ o later, news = o :: later ∧ o.kind = f.value.kind

/-- Of two outcomes the later one is of the same kind, or of a kind further on to which the rules went on. -/
def Falls (data : Value) (text : List Char) (a b : Outcome) : Prop :=
  a.kind = b.kind ∨ [a.kind,b.kind].Sublist ruleOrder ∧ Passes data text a.kind

variable {setup : Setup} {s s' : Session} {p : NodeId} {text : List Char}

/-- The lexer gives directives of the first kind that occurs. -/
theorem scanBlocks_kind (text : List Char) :
    (∀ f ∈ scanBlocks text, ruleOrder.find? (occurs text) = some f.value.kind) ∧
      (scanBlocks text = [] ↔ ruleOrder.find? (occurs text) = none) := by
  simp only [ruleOrder,List.find?_cons,occurs,scanBlocks]
  cases first? table? text with
  | some f => simp [Found.map,Lexeme.kind]
  | none =>
    cases first? chart? text with
    | some f => simp [Found.map,Lexeme.kind]
    | none =>
      cases first? image? text with
      | some f => simp [Found.map,Lexeme.kind]
      | none =>
        cases all format? text with
        | cons f fs => simp [Found.map,Lexeme.kind]
        | nil =>
          cases first? loop? text with
          | some f => simp [Found.map,Lexeme.kind]
          | none => cases all placeholder? text <;> simp [Found.map,Lexeme.kind]

/-- What a rule for the directives of one kind does. It goes on where there are none of them. Otherwise it
records outcomes of that kind, and goes on only behind directives that are passed. -/
inductive Heeded (data : Value) (text : List Char) (kind : Kind) (s : Session) : Step → Session → Prop
  | absent (none : occurs text kind = false) : Heeded data text kind s .next s
  | present {step : Step} {s' : Session} (o : Outcome) (more : List Outcome)
    (some : occurs text kind = true) (kinds : ∀ o' ∈ o :: more, o'.kind = kind)
    (outcomes_eq : s'.outcomes = s.outcomes ++ o :: more) (passes : step = .next → Passes data text kind) :
    Heeded data text kind s step s'

/-- A rule for the directives of one kind. -/
def Heeds (setup : Setup) (text : List Char) (kind : Kind)
    (rule : Target → List Char → Generation Step) : Prop :=
  ∀ t s, Gives setup (rule t text) s (Heeded setup.data text kind s)

/-- What is recorded is recorded once. -/
theorem gives_record {α : Type} {kind : Kind} {key : Value} {status : Status} {reason : String}
    {next : Unit → Generation α} {post : α → Session → Prop}
    (gives : ∀ s', s.Records [⟨kind,key,status,reason,s.part⟩] s' → Gives setup (next ()) s' post) :
    Gives setup (record kind key status reason >>= next) s post := by
  obtain ⟨s',recorded,records⟩ := exists_record kind key status reason setup s
  intro a s'' ran
  exact gives s' records a s'' ((bind_ok recorded).symm.trans ran)

/-- Steps that record nothing have no part in what is told. -/
theorem gives_tacit {α β : Type} {step : Generation α} {next : α → Generation β} {s₁ : Session}
    {post : β → Session → Prop} (tacit : Tacit step) (mute : s.Mute s₁)
    (gives : ∀ a s₂, s.Mute s₂ → Gives setup (next a) s₂ post) : Gives setup (step >>= next) s₁ post :=
  .of_bind fun a s₂ ran => gives a s₂ (mute.trans (tacit.mute ran))

section Rules
variable {kind : Kind}

/-- A rule records one outcome and is done. -/
private theorem heeded_one {key : Value} {status : Status} {reason : String} {step : Step} {s₁ : Session}
    (some : occurs text kind = true) (mute : s.Mute s₁) (passes : step = .next → Passes setup.data text kind) :
    Gives setup (do
      record kind key status reason
      return step) s₁ (Heeded setup.data text kind s) := by
  refine gives_record fun s' records => .of_pure ?_
  refine .present ⟨kind,key,status,reason,s₁.part⟩ [] some (by simp) ?_ passes
  rw [records.outcomes_eq,mute.outcomes_eq]

private theorem gives_valueAt {α : Type} {key : String} {next : Value → Generation α} {post : α → Session → Prop}
    (gives : Gives setup (next (setup.data.resolve key)) s post) : Gives setup (valueAt key >>= next) s post :=
  gives

theorem heeds_table (setup : Setup) (text : List Char) : Heeds setup text .table tableRule := by
  intro t s
  unfold tableRule
  cases found : first? table? text with
  | none => exact .of_pure (.absent (by simp [occurs,found]))
  | some f =>
    have some : occurs text .table = true := by simp [occurs,found]
    refine gives_valueAt ?_
    cases items? (setup.data.resolve f.value.key) with
    | none => exact heeded_one some (.refl s) nofun
    | some rows =>
      refine .of_look_setup (gives_tacit (.of_guarded (.of_ofExcept _)) (.refl s) fun built s₁ mute => ?_)
      cases built with
      | error fault => exact heeded_one some mute nofun
      | ok element =>
        exact gives_tacit (.of_onPackage _) mute fun table _ mute =>
          gives_tacit (tacit_putTable _ table) mute fun _ _ mute =>
            gives_tacit (.of_onPackage _) mute fun _ _ mute => heeded_one some mute nofun

theorem heeds_chart (setup : Setup) (text : List Char) : Heeds setup text .chart chartRule := by
  intro t s
  unfold chartRule
  cases found : first? chart? text with
  | none => exact .of_pure (.absent (by simp [occurs,found]))
  | some f =>
    have some : occurs text .chart = true := by simp [occurs,found]
    refine gives_valueAt ?_
    cases items? (setup.data.resolve f.value.key) with
    | none => exact heeded_one some (.refl s) nofun
    | some rows =>
      refine gives_tacit (.of_guarded (Embed.tacit_chart _ _ _ _ _)) (.refl s) fun built s₁ mute => ?_
      cases built with
      | error fault => exact heeded_one some mute nofun
      | ok element =>
        exact gives_tacit (.of_onPackage _) mute fun drawing _ mute =>
          gives_tacit (.of_change _) mute fun _ _ mute => heeded_one some mute nofun

private theorem tacit_lengthAt (key : String) (usual : Int) : Tacit (lengthAt key usual) := by
  refine .of_look_setup fun setup => .of_bind (.of_ofExcept _) fun length => ?_
  cases length <;> exact .of_pure _

theorem heeds_image (setup : Setup) (text : List Char) : Heeds setup text .image imageRule := by
  intro t s
  unfold imageRule
  cases found : first? image? text with
  | none => exact .of_pure (.absent (by simp [occurs,found]))
  | some f =>
    have some : occurs text .image = true := by simp [occurs,found]
    refine gives_valueAt ?_
    split
    · next address =>
      dsimp only
      split
      · exact heeded_one some (.refl s) nofun
      · refine .of_look_setup (gives_tacit (tacit_lengthAt _ _) (.refl s) fun width _ mute =>
          gives_tacit (tacit_lengthAt _ _) mute fun height _ mute =>
            gives_tacit (.of_guarded (Embed.tacit_fetched _ _ _)) mute fun built _ mute => ?_)
        cases built with
        | error fault => exact heeded_one some mute nofun
        | ok element =>
          exact gives_tacit (.of_onPackage _) mute fun drawing _ mute =>
            gives_tacit (.of_change _) mute fun _ _ mute => heeded_one some mute nofun
    · exact heeded_one some (.refl s) nofun

private theorem gives_formatAll (text : List Char) (found : List (Found FormatTag)) (s : Session) :
    Gives setup (formatAll text found) s fun out s' =>
      out = replaced setup.data text found ∧ s.Records (found.map (formatOutcome s.part)) s' := by
  induction found generalizing text s with
  | nil => exact .of_pure ⟨rfl,.refl s⟩
  | cons f found ih =>
    refine gives_valueAt (.of_bind fun new s₁ looked => gives_record fun s₂ records => ?_)
    obtain ⟨given,rfl⟩ := eq_ok_of_ofExcept looked
    have given : formatted setup.data f.value = .ok new := given
    refine fun out s' ran => ?_
    obtain ⟨out_eq,later⟩ := ih _ s₂ out s' ran
    refine ⟨?_,?_⟩
    · rw [out_eq,replaced,replaced,List.foldl_cons,given]
      rfl
    · rw [records.part_eq] at later
      exact records.trans later

theorem heeds_format (setup : Setup) (text : List Char) : Heeds setup text .format formatRule := by
  intro t s
  unfold formatRule
  cases found : all format? text with
  | nil => exact .of_pure (.absent (by simp [occurs,found]))
  | cons f fs =>
    have some : occurs text .format = true := by simp [occurs,found]
    have kinds : ∀ o ∈ (f :: fs).map (formatOutcome s.part), o.kind = .format := by simp [formatOutcome]
    refine .of_bind fun out s₁ ran => ?_
    obtain ⟨rfl,records⟩ := gives_formatAll text (f :: fs) s out s₁ ran
    split
    · next same =>
      have passes : Passes setup.data text .format := by
        rw [Passes,found]
        exact eq_of_beq same
      exact .of_pure (.present _ _ some kinds records.outcomes_eq fun _ => passes)
    · refine gives_tacit (tacit_write _ _) (.refl s₁) fun _ s₂ mute => .of_pure ?_
      exact .present _ _ some kinds (mute.outcomes_eq.trans records.outcomes_eq) nofun

theorem heeds_loop (setup : Setup) (text : List Char) : Heeds setup text .loop loopRule := by
  intro t s
  unfold loopRule
  cases found : first? loop? text with
  | none => exact .of_pure (.absent (by simp [occurs,found]))
  | some f =>
    have some : occurs text .loop = true := by simp [occurs,found]
    refine gives_valueAt ?_
    cases items : items? (setup.data.resolve f.value.key) with
    | none => exact heeded_one some (.refl s) fun _ => ⟨f,found,items⟩
    | some items =>
      exact gives_tacit (.of_ofExcept _) (.refl s) fun rendered _ mute =>
        gives_tacit (tacit_write _ _) mute fun _ _ mute => heeded_one some mute nofun

private theorem gives_placeholderTexts (found : List (Found Placeholder)) (s : Session) :
    Gives setup (found.mapM placeholderText) s fun _ s' =>
      s.Records ((found.map (·.value.key)).map (textOutcome setup.data s.part)) s' := by
  induction found generalizing s with
  | nil => exact .of_pure (.refl s)
  | cons f found ih =>
    rw [List.mapM_cons]
    refine .of_bind fun pair s₁ ran => .of_bind fun pairs s₂ ran' => .of_pure ?_
    obtain ⟨_,_,looked,shown⟩ := exists_of_bind_ok ran
    obtain ⟨rfl,rfl⟩ := EStateM.Result.ok.inj looked
    obtain ⟨new,_,looked,-⟩ := exists_of_bind_ok shown
    obtain ⟨given,-⟩ := eq_ok_of_ofExcept looked
    obtain ⟨s₁',first,records⟩ := exists_placeholderText given s
    obtain ⟨-,rfl⟩ := EStateM.Result.ok.inj (first.symm.trans ran)
    have later := ih s₁' pairs s₂ ran'
    rw [records.part_eq] at later
    exact records.trans later

theorem heeds_text (setup : Setup) (text : List Char) : Heeds setup text .text textRule := by
  intro t s
  unfold textRule
  cases found : all placeholder? text with
  | nil => exact .of_pure (.absent (by simp [occurs,found]))
  | cons f fs =>
    have some : occurs text .text = true := by simp [occurs,found]
    have kinds : ∀ o ∈ ((f :: fs).map (·.value.key)).map (textOutcome setup.data s.part), o.kind = .text := by
      intro o member
      obtain ⟨key,-,rfl⟩ := List.mem_map.mp member
      unfold textOutcome
      split <;> rfl
    refine .of_bind fun texts s₁ ran => ?_
    have records := gives_placeholderTexts (f :: fs) s texts s₁ ran
    refine gives_tacit (tacit_write _ _) (.refl s₁) fun _ s₂ mute => .of_pure ?_
    exact .present _ _ some kinds (mute.outcomes_eq.trans records.outcomes_eq) nofun

end Rules

/-- What a list of rules for some kinds, in that order, records about a text. -/
structure Told (data : Value) (text : List Char) (kinds : List Kind) (news : List Outcome) : Prop where
  head : news.head?.map (·.kind) = kinds.find? (occurs text)
  known : ∀ o ∈ news, o.kind ∈ kinds
  falls : news.Pairwise fun a b =>
    a.kind = b.kind ∨ [a.kind,b.kind].Sublist kinds ∧ Passes data text a.kind

theorem gives_told {rules : List (Target → List Char → Generation Step)} {kinds : List Kind}
    (heeds : List.Forall₂ (Heeds setup text) kinds rules)
    (t : Target) (s : Session) : Gives setup (tryRules t text rules) s fun _ s' =>
      ∃ news, s'.outcomes = s.outcomes ++ news ∧ Told setup.data text kinds news := by
  induction heeds generalizing s with
  | nil => exact .of_pure ⟨[],(List.append_nil _).symm,rfl,nofun,.nil⟩
  | @cons kind rule kinds rules here later ih =>
    refine .of_bind fun step s₁ ran => ?_
    cases here t s step s₁ ran with
    | absent none =>
      intro e s' ran'
      obtain ⟨news,outcomes_eq,told⟩ := ih s e s' ran'
      refine ⟨news,outcomes_eq,?_,fun o member => List.mem_cons_of_mem _ (told.known o member),?_⟩
      · rw [List.find?_cons_of_neg (by simp [none])]
        exact told.head
      · exact told.falls.imp fun falls => falls.imp_right fun below => ⟨below.1.cons _,below.2⟩
    | present o more met same outcomes_eq passes =>
      have head : (kind :: kinds).find? (occurs text) = some kind := List.find?_cons_of_pos met
      have alike : (o :: more).Pairwise fun a b => a.kind = b.kind ∨
          [a.kind,b.kind].Sublist (kind :: kinds) ∧ Passes setup.data text a.kind :=
        List.pairwise_of_forall_mem_list fun a here b there => Or.inl ((same a here).trans (same b there).symm)
      have told : Told setup.data text (kind :: kinds) (o :: more) :=
        ⟨by rw [head,List.head?_cons,Option.map_some,same o List.mem_cons_self],
          fun a member => same a member ▸ List.mem_cons_self,alike⟩
      cases step with
      | ended | halt => exact .of_pure ⟨_,outcomes_eq,told⟩
      | next =>
        intro e s' ran'
        obtain ⟨news,later_eq,told'⟩ := ih s₁ e s' ran'
        refine ⟨(o :: more) ++ news,?_,told.head,?_,List.pairwise_append.mpr ⟨alike,?_,?_⟩⟩
        · rw [later_eq,outcomes_eq,List.append_assoc]
        · exact fun a member => (List.mem_append.mp member).elim (told.known a)
            fun member => List.mem_cons_of_mem _ (told'.known a member)
        · exact told'.falls.imp fun falls => falls.imp_right fun below => ⟨below.1.cons _,below.2⟩
        · intro a here b there
          refine Or.inr ⟨?_,?_⟩ <;> rw [same a here]
          · exact (List.singleton_sublist.mpr (told'.known b there)).cons_cons kind
          · exact passes rfl

theorem heeds_rules (setup : Setup) (text : List Char) : List.Forall₂ (Heeds setup text) ruleOrder rules :=
  .cons (heeds_table setup text) <| .cons (heeds_chart setup text) <| .cons (heeds_image setup text) <|
    .cons (heeds_format setup text) <| .cons (heeds_loop setup text) <| .cons (heeds_text setup text) .nil

/-- What the rules record begins with what the lexer finds. -/
theorem Told.leads {data : Value} {news : List Outcome} (told : Told data text ruleOrder news) :
    Leads (scanBlocks text) news := by
  obtain ⟨kind,silent⟩ := scanBlocks_kind text
  refine ⟨fun none => ?_,fun f member => ?_⟩
  · have head := told.head.trans (silent.mp none)
    exact List.head?_eq_none_iff.mp (Option.map_eq_none_iff.mp head)
  · obtain ⟨o,first,same⟩ := Option.map_eq_some_iff.mp (told.head.trans (kind f member))
    obtain ⟨later,split⟩ := List.head?_eq_some_iff.mp first
    exact ⟨o,later,split,same⟩

private theorem gives_holds {condition : String} : Gives setup (holds condition) s fun b s' =>
    s.Mute s' ∧ (b = true ↔ Condition.judge condition setup.data = .ok (.holds true)) := by
  intro b s' ran
  obtain ⟨_,_,looked,judged⟩ := exists_of_bind_ok ran
  obtain ⟨rfl,rfl⟩ := EStateM.Result.ok.inj looked
  obtain ⟨verdict,_,judged,-⟩ := exists_of_bind_ok judged
  obtain ⟨given,-⟩ := eq_ok_of_ofExcept judged
  obtain ⟨b',s'',ran',records,holds⟩ := exists_holds given s
  obtain ⟨rfl,rfl⟩ := EStateM.Result.ok.inj (ran'.symm.trans ran)
  rw [given]
  exact ⟨⟨records.outcomes_eq.trans (List.append_nil _),records.part_eq⟩,holds.trans (by simp)⟩

/-- What is recorded for the blocks of a text. All of them stand, and their contents are left; or one does not
stand, and nothing is left. -/
inductive Judged (data : Value) (s : Session) (blocks : List (Found Conditional)) (text : List Char) :
    Option (List Char) → Session → Prop
  | kept {s' : Session} (stand : ∀ b ∈ blocks, Stands data b)
    (outcomes_eq : s'.outcomes = s.outcomes ++ blocks.map (blockOutcome s.part "")) :
    Judged data s blocks text (some text) s'
  | removed {s' : Session} {before after : List (Found Conditional)} {b : Found Conditional}
    (split : blocks = before ++ b :: after) (fails : ¬ Stands data b)
    (outcomes_eq : s'.outcomes = s.outcomes ++ (before.map (blockOutcome s.part "") ++
      [blockOutcome s.part "condition false; paragraph removed" b])) :
    Judged data s blocks text none s'

private theorem Judged.cons {data : Value} {b : Found Conditional} {blocks : List (Found Conditional)}
    {left : Option (List Char)} {s₁ : Session} (judged : Judged data s₁ blocks text left s')
    (stands : Stands data b) (outcomes_eq' : s₁.outcomes = s.outcomes ++ [blockOutcome s.part "" b])
    (part_eq : s₁.part = s.part) : Judged data s (b :: blocks) text left s' := by
  cases judged with
  | kept stand outcomes_eq =>
    refine .kept (List.forall_mem_cons.mpr ⟨stands,stand⟩) ?_
    rw [outcomes_eq,outcomes_eq',part_eq,List.append_assoc]
    rfl
  | @removed _ before after last split fails outcomes_eq =>
    have split' : b :: blocks = b :: before ++ last :: after := congrArg _ split
    refine .removed split' fails ?_
    rw [outcomes_eq,outcomes_eq',part_eq,List.append_assoc]
    rfl

private theorem gives_judged {start fuel : Nat} {rest : List Char} {blocks : List (Found Conditional)}
    (finds : Finds conditional? start rest blocks) (done : List Char) (enough : rest.length < fuel)
    (met : Bool) (s : Session) :
    Gives setup (resolveBlocks fuel p (done ++ rest) done.length met) s fun left s' =>
      Judged setup.data s blocks
        (done ++ substitute.go start rest (blocks.map fun b => (b,b.value.content))) left.1 s' := by
  -- as in the search for the blocks; `done` is not searched again
  induction finds generalizing done fuel met s with
  | nil start =>
    obtain ⟨fuel,rfl⟩ := Nat.exists_eq_add_of_lt enough
    have none : nextConditional? (done ++ []) done.length = none := by
      rw [nextConditional?,List.drop_left]
      rfl
    rw [List.length_nil,Nat.zero_add,resolveBlocks,none]
    exact .of_pure (.kept (by simp) (List.append_nil _).symm)
  | @pass start c rest blocks silent more ih =>
    rw [resolveBlocks_pass silent,more.go_pass (List.Subset.refl _) (·.value.content),
      List.append_cons done c (substitute.go _ _ _)]
    exact ih (done ++ [c]) (Nat.lt_of_succ_lt enough) met s
  | @read start value raw rest blocks some reads more ih =>
    obtain ⟨fuel,rfl⟩ := Nat.exists_eq_add_of_lt (Nat.zero_lt_of_lt enough)
    rw [Nat.zero_add] at enough ⊢
    have shorter : rest.length < fuel := by
      have size := List.length_pos_of_ne_nil some
      rw [List.length_append] at enough
      omega
    rw [resolveBlocks_read some reads]
    refine .of_bind fun b s₁ ran => ?_
    obtain ⟨quiet,stands⟩ := gives_holds b s₁ ran
    cases b with
    | true =>
      refine gives_record fun s₂ records left s' ran => ?_
      have outcomes_eq := records.outcomes_eq
      rw [quiet.outcomes_eq,quiet.part_eq] at outcomes_eq
      rw [List.map_cons,go_read,← List.append_assoc]
      exact (ih (done ++ value.content) shorter true s₂ left s' ran).cons (stands.mp rfl)
        outcomes_eq (records.part_eq.trans quiet.part_eq)
    | false =>
      refine gives_tacit (tacit_removeParagraph p) quiet fun _ s₂ mute => ?_
      refine gives_record fun s₃ records => .of_pure ?_
      refine .removed (List.nil_append _).symm (fun holds => Bool.false_ne_true (stands.mpr holds)) ?_
      rw [records.outcomes_eq,mute.outcomes_eq,mute.part_eq]
      rfl

/-- The text that the blocks of a text leave when all of them stand. -/
def standing (text : List Char) : List Char :=
  substitute text ((all conditional? text).map fun b => (b,b.value.content))

/-- What is told of a text begins with what the lexer finds in it. When all blocks stand the same holds of the
text they leave, and a kind that comes later in the order has its turn only where the rules go on. -/
structure Dispatched (data : Value) (part : String) (text : List Char) (news : List Outcome) : Prop where
  leads : Leads (scan text) news
  standing : (∀ b ∈ all conditional? text, Stands data b) → ∃ rest,
    news = (all conditional? text).map (blockOutcome part "") ++ rest ∧
      Leads (scanBlocks (standing text)) rest ∧ rest.Pairwise (Falls data (standing text))

private theorem dispatched_of_plain (data : Value) (part : String) (plain : '\x7b' ∉ text) :
    Dispatched data part text [] := by
  have none : scan text = [] := scan_eq_nil_iff.mpr
    ⟨⟨tag_conditional.toBraced.silent_of_plain plain,tag_table.toBraced.silent_of_plain plain,
      tag_chart.toBraced.silent_of_plain plain,tag_image.toBraced.silent_of_plain plain,
      tag_format.toBraced.silent_of_plain plain,tag_loop.toBraced.silent_of_plain plain⟩,
      tag_placeholder.toBraced.silent_of_plain plain⟩
  have blocks : all conditional? text = [] :=
    (all_eq_nil_iff tag_conditional.proper).mpr (scan_eq_nil_iff.mp none).1.conditional
  have left : scanBlocks (standing text) = [] := by
    rw [standing,blocks]
    rwa [scan,blocks] at none
  have leads {found : List (Found Lexeme)} (none : found = []) : Leads found [] :=
    ⟨fun _ => rfl,fun f member => absurd (none ▸ member) List.not_mem_nil⟩
  exact ⟨leads none,fun _ => ⟨[],by rw [blocks]; rfl,leads left,.nil⟩⟩

private theorem gives_rest (t : Target) (text : List Char) (met : Bool) (s : Session) :
    Gives setup (do
      if met then t.write text
      match ← tryRules t text rules with
      | some e => return e
      | none => return if met then .rewritten else .unchanged) s fun (_ : Ending) s' =>
        ∃ rest, s'.outcomes = s.outcomes ++ rest ∧ Told setup.data text ruleOrder rest := by
  have tries {s₁ : Session} (mute : s.Mute s₁) : Gives setup (do
      match ← tryRules t text rules with
      | some e => return e
      | none => return if met then .rewritten else .unchanged) s₁ fun (_ : Ending) s' =>
        ∃ rest, s'.outcomes = s.outcomes ++ rest ∧ Told setup.data text ruleOrder rest := by
    refine .of_bind fun ended s₂ ran => ?_
    have told := gives_told (heeds_rules setup text) t s₁ ended s₂ ran
    rw [mute.outcomes_eq] at told
    cases ended <;> exact .of_pure told
  cases met with
  | false => exact tries (.refl s)
  | true => exact gives_tacit (tacit_write t text) (.refl s) fun _ _ => tries

private theorem leads_of_blocks {o : Outcome} {later : List Outcome} (blocks : all conditional? text ≠ [])
    (kind : o.kind = .conditional) : Leads (scan text) (o :: later) := by
  obtain ⟨b,bs,found⟩ := List.exists_cons_of_ne_nil blocks
  refine ⟨fun none => ?_,fun f member => ⟨o,later,rfl,?_⟩⟩
  · simp [scan,found] at none
  · simp only [scan,found] at member
    obtain ⟨g,-,rfl⟩ := List.mem_map.mp member
    exact kind

/-- What is recorded for the blocks of a text is followed by what the rules record. -/
private theorem dispatched_of_kept {data : Value} {part : String} {rest : List Outcome}
    (told : Told data (standing text) ruleOrder rest) :
    Dispatched data part text ((all conditional? text).map (blockOutcome part "") ++ rest) := by
  refine ⟨?_,fun _ => ⟨rest,rfl,told.leads,told.falls⟩⟩
  cases found : all conditional? text with
  | nil =>
    have left : standing text = text := by
      rw [standing,found]
      rfl
    rw [scan,found]
    exact Told.leads (left ▸ told)
  | cons b bs => exact leads_of_blocks (by simp [found]) rfl

private theorem dispatched_of_removed {data : Value} {part : String} {before after : List (Found Conditional)}
    {b : Found Conditional} (split : all conditional? text = before ++ b :: after) (fails : ¬ Stands data b) :
    Dispatched data part text (before.map (blockOutcome part "") ++
      [blockOutcome part "condition false; paragraph removed" b]) := by
  have blocks : all conditional? text ≠ [] := by simp [split]
  refine ⟨?_,fun stand => absurd (stand b (by simp [split])) fails⟩
  cases before <;> exact leads_of_blocks blocks rfl

theorem paragraph_dispatches {e : Ending} (attached : s.index.isAttached p = true)
    (ran : Fill.paragraph p setup s = .ok e s') : ∃ news, s'.outcomes = s.outcomes ++ news ∧
      Dispatched setup.data s.part (s.package.forest.paragraphText p) news := by
  by_cases plain : '\x7b' ∉ s.package.forest.paragraphText p
  · obtain ⟨-,rfl⟩ := EStateM.Result.ok.inj ((paragraph_of_plain plain).symm.trans ran)
    exact ⟨[],(List.append_nil _).symm,dispatched_of_plain _ _ plain⟩
  have looked : Generation.isAttached p setup s = .ok true s := congrArg (EStateM.Result.ok · s) attached
  have braced : (s.package.forest.joinedText (s.package.forest.textElements p)).contains '\x7b' = true :=
    List.contains_iff_mem.mpr (not_not.mp plain)
  replace ran := (bind_ok (forest_apply setup s)).symm.trans ((bind_ok looked).symm.trans ran)
  simp only [braced,Bool.not_true,Bool.false_eq_true,if_false] at ran
  obtain ⟨⟨left,met⟩,s₁,resolved,ran⟩ := exists_of_bind_ok ran
  change resolveBlocks ((s.package.forest.paragraphText p).length + 1) p
    (s.package.forest.paragraphText p) 0 false setup s = _ at resolved
  generalize s.package.forest.paragraphText p = text at resolved
  have judged := gives_judged (finds_all tag_conditional.proper text) [] (Nat.lt_succ_self _) false s
    (left,met) s₁ resolved
  cases judged with
  | kept stand outcomes_eq =>
    obtain ⟨rest,later_eq,told⟩ := gives_rest _ _ met s₁ e s' ran
    refine ⟨_,?_,dispatched_of_kept told⟩
    rw [later_eq,outcomes_eq,List.append_assoc]
  | removed split fails outcomes_eq =>
    obtain ⟨-,rfl⟩ := EStateM.Result.ok.inj ran
    exact ⟨_,outcomes_eq,dispatched_of_removed split fails⟩

/-- A block that stands, a format that gives way to its own tag, a loop over nothing and a placeholder. -/
private def fallingText : String :=
  "\x7b#if c\x7dA\x7b/if\x7d\x7bformat:f:x\x7d\x7b#each b as i\x7dB\x7b/each\x7d\x7by\x7d"

private def fallingSetup : Setup where
  data := .map [(.text "c",.bool true),(.text "f",.text "\x7bformat:f:x\x7d")]

private def fallingSession : Session where
  package := { forest := .line fallingText }

private theorem falling_run : (match Fill.paragraph 0 fallingSetup fallingSession with
    | .ok _ s' => s'.outcomes.map (·.kind) == [.conditional,.format,.loop,.text,.text]
    | .error _ _ => false) = true := by
  decide +kernel

theorem paragraph_dispatches_falling : ∃ e s', fallingSession.index.isAttached 0 = true ∧
    Fill.paragraph 0 fallingSetup fallingSession = .ok e s' ∧
      s'.outcomes.map (·.kind) = [.conditional,.format,.loop,.text,.text] ∧
        ∃ news, s'.outcomes = fallingSession.outcomes ++ news ∧
          Dispatched fallingSetup.data fallingSession.part
            (fallingSession.package.forest.paragraphText 0) news := by
  have kinds := falling_run
  cases ran : Fill.paragraph 0 fallingSetup fallingSession with
  | ok e s' =>
    rw [ran] at kinds
    exact ⟨e,s',rfl,rfl,eq_of_beq kinds,paragraph_dispatches rfl ran⟩
  | error fault s' =>
    rw [ran] at kinds
    exact nomatch kinds

end MailMerge.Fill
