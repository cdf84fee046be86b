import MailMerge.Proofs.Directive.Tags

/-! The grammar of blocks. A conditional block and a row rule are described by what they are put together from,
without a word about how they are read; the recognizers read just these texts. What is listed in a text is then
the leftmost block, the leftmost one behind it, and so on.
-/
namespace MailMerge.Directive
open Text

variable {α : Type} {r : Recognizer α} {is : α → List Char → Prop} {start : Nat}
  {text rest raw : List Char} {value : α} {f g : Found α} {found : List (Found α)}

/-- A recognizer reads the texts of a kind, whatever follows them, and no others. -/
structure Accepts (r : Recognizer α) (is : α → List Char → Prop) : Prop where
  solid : ∀ {value raw}, is value raw → raw ≠ []
  reads_iff : ∀ {text value rest}, r text = some (value,rest) ↔ ∃ raw, is value raw ∧ text = raw ++ rest

/-- A finding in a text whose first character has position `start`: it is of a kind, what follows it is the
rest, and nothing of the kind begins before it. -/
structure Leftmost (is : α → List Char → Prop) (start : Nat) (text : List Char) (f : Found α)
    (rest : List Char) : Prop where
  kind : is f.value f.raw
  place : ∃ before, text = before ++ (f.raw ++ rest) ∧ f.start = start + before.length
  least : ∀ {value before raw after}, is value raw → text = before ++ (raw ++ after) →
    f.start ≤ start + before.length

/-- All of a kind in a text: the leftmost, then the leftmost in what follows it, until there is none. -/
inductive Lists (is : α → List Char → Prop) : Nat → List Char → List (Found α) → Prop
  | none {start : Nat} {text : List Char} (absent : ∀ value raw, is value raw → ¬ raw <:+: text) :
    Lists is start text []
  | next {start : Nat} {text rest : List Char} {f : Found α} {found : List (Found α)}
    (first : Leftmost is start text f rest) (more : Lists is f.stop rest found) :
    Lists is start text (f :: found)

namespace Leftmost

/-- A character at which nothing of the kind begins is passed over. -/
theorem cons (leftmost : Leftmost is (start + 1) text f rest) {c : Char}
    (silent : ∀ value raw, is value raw → ¬ raw <+: c :: text) : Leftmost is start (c :: text) f rest where
  kind := leftmost.kind
  place := by
    obtain ⟨before,split,start_eq⟩ := leftmost.place
    exact ⟨c :: before,by rw [split,List.cons_append],by rw [start_eq,List.length_cons]; omega⟩
  least {value before raw after} kind split := by
    cases before with
    | nil => exact absurd ⟨after,split.symm⟩ (silent value raw kind)
    | cons d before =>
      have later := leftmost.least kind (List.cons.inj (split.trans (List.cons_append ..))).2
      rw [List.length_cons]
      omega

end Leftmost

namespace Accepts

theorem proper (accepts : Accepts r is) : Proper r := by
  intro text value rest reads
  obtain ⟨raw,kind,split⟩ := accepts.reads_iff.mp reads
  exact ⟨raw,accepts.solid kind,split⟩

theorem reads (accepts : Accepts r is) (kind : is value raw) (rest : List Char) :
    r (raw ++ rest) = some (value,rest) :=
  accepts.reads_iff.mpr ⟨raw,kind,rfl⟩

theorem silent_iff (accepts : Accepts r is) :
    r text = none ↔ ∀ value raw, is value raw → ¬ raw <+: text := by
  rw [Option.eq_none_iff_forall_not_mem]
  constructor
  · rintro silent value raw kind ⟨rest,rfl⟩
    exact silent _ (accepts.reads kind rest)
  · rintro absent ⟨value,rest⟩ reads
    obtain ⟨raw,kind,rfl⟩ := accepts.reads_iff.mp reads
    exact absent value raw kind (List.prefix_append raw rest)

/-- Only one finding is the leftmost. -/
theorem leftmost_unique (accepts : Accepts r is) {rest' : List Char} (first : Leftmost is start text f rest)
    (first' : Leftmost is start text g rest') : f = g ∧ rest = rest' := by
  obtain ⟨before,split,start_eq⟩ := first.place
  obtain ⟨before',split',start_eq'⟩ := first'.place
  have le := first.least first'.kind split'
  have le' := first'.least first.kind split
  have same : before.length = before'.length := by omega
  obtain ⟨rfl,same_text⟩ := List.append_inj (split.symm.trans split') same
  have reads := accepts.reads first.kind rest
  rw [same_text,accepts.reads first'.kind rest'] at reads
  obtain ⟨value_eq,rfl⟩ := Prod.mk.inj (Option.some.inj reads)
  obtain ⟨value,_,raw⟩ := f
  obtain ⟨value',_,raw'⟩ := g
  obtain rfl : raw = raw' := List.append_cancel_right same_text
  exact ⟨by simp_all,rfl⟩

theorem lists_of_finds (accepts : Accepts r is) (finds : Finds r start text found) :
    Lists is start text found := by
  induction finds with
  | nil =>
    exact .none fun value raw kind inside => accepts.solid kind (List.infix_nil.mp inside)
  | @pass start c rest found silent more ih =>
    have passed := accepts.silent_iff.mp silent
    cases ih with
    | none absent =>
      refine .none fun value raw kind inside => ?_
      exact (List.infix_cons_iff.mp inside).elim (passed value raw kind) (absent value raw kind)
    | next first later => exact .next (first.cons passed) later
  | @read start value raw rest found some reads more ih =>
    obtain ⟨raw',kind,split⟩ := accepts.reads_iff.mp reads
    obtain rfl := List.append_cancel_right split
    exact .next ⟨kind,⟨[],rfl,rfl⟩,fun _ _ => Nat.le_add_right _ _⟩ ih

theorem lists_unique (accepts : Accepts r is) {found' : List (Found α)} (lists : Lists is start text found)
    (lists' : Lists is start text found') : found = found' := by
  have absurd_of_absent {start : Nat} {text rest : List Char} {f : Found α}
      (absent : ∀ value raw, is value raw → ¬ raw <:+: text) (first : Leftmost is start text f rest) : False := by
    obtain ⟨before,rfl,-⟩ := first.place
    exact absent _ _ first.kind ⟨before,rest,List.append_assoc ..⟩
  induction lists generalizing found' with
  | none absent =>
    cases lists' with
    | none => rfl
    | next first => exact (absurd_of_absent absent first).elim
  | next first more ih =>
    cases lists' with
    | none absent => exact (absurd_of_absent absent first).elim
    | next first' more' =>
      obtain ⟨rfl,rfl⟩ := accepts.leftmost_unique first first'
      rw [ih more']

/-- What a search lists is what there is of the kind. -/
theorem all_eq_iff (accepts : Accepts r is) : all r text = found ↔ Lists is 0 text found := by
  have lists := accepts.lists_of_finds (finds_all accepts.proper text)
  exact ⟨fun same => same ▸ lists,accepts.lists_unique lists⟩

/-- What is found first is the leftmost of the kind. -/
theorem firstFrom_eq_some_iff (accepts : Accepts r is) :
    firstFrom r start text = some f ↔ ∃ rest, Leftmost is start text f rest := by
  have finds : Finds r start text (allFrom r start 0 text) := finds_allFrom accepts.proper start 0 text
  rw [finds.firstFrom_eq accepts.proper]
  generalize allFrom r start 0 text = found at finds
  cases accepts.lists_of_finds finds with
  | none absent =>
    refine iff_of_false nofun ?_
    rintro ⟨rest,first⟩
    obtain ⟨before,rfl,-⟩ := first.place
    exact absent _ _ first.kind ⟨before,rest,List.append_assoc ..⟩
  | next first _ =>
    constructor
    · rintro ⟨⟩
      exact ⟨_,first⟩
    · rintro ⟨rest,first'⟩
      rw [(accepts.leftmost_unique first first').1]
      rfl

/-- Nothing is found where there is nothing of the kind. -/
theorem first?_eq_none_iff (accepts : Accepts r is) :
    first? r text = none ↔ ∀ value raw, is value raw → ¬ raw <:+: text := by
  rw [Directive.first?_eq_none_iff accepts.proper]
  constructor
  · rintro silent value raw kind ⟨before,after,rfl⟩
    have reads := silent (raw ++ after) ⟨before,(List.append_assoc ..).symm⟩
    exact nomatch reads.symm.trans (accepts.reads kind after)
  · rintro absent rest ⟨before,rfl⟩
    exact accepts.silent_iff.mpr fun value raw kind ⟨after,split⟩ =>
      absent value raw kind ⟨before,after,by rw [← split,List.append_assoc]⟩

end Accepts

theorem of_untilBrace? {head : List Char} (reads : untilBrace? text = some (head,rest)) :
    text = head ++ '\x7d' :: rest ∧ '\x7d' ∉ head := by
  by_cases ends : '\x7d' ∈ text
  · obtain ⟨inside,tail,rfl,closed⟩ := List.eq_append_cons_of_mem ends
    rw [untilBrace?_inside closed] at reads
    obtain ⟨rfl,rfl⟩ := Prod.mk.inj (Option.some.inj reads)
    exact ⟨rfl,closed⟩
  · have whole : (text ++ []).takeWhile (· != '\x7d') = text := takeWhile_run
      (List.all_eq_true.mpr fun c member => bne_iff_ne.mpr fun same => ends (same ▸ member)) nofun
    rw [List.append_nil] at whole
    simp [untilBrace?,whole] at reads

/-- A text that is a conditional block: behind the opening mark a blank and something more up to the closing
brace, then the content up to the first closing tag. -/
structure IsConditional (block : Conditional) (raw : List Char) : Prop where
  unclosed : ¬ "\x7b/if\x7d".toList <:+: block.content
  raw_eq : ∃ blank head, isBlank blank = true ∧ head ≠ [] ∧ '\x7d' ∉ head ∧
    block.condition = String.ofList (trim (blank :: head)) ∧
      raw = "\x7b#if".toList ++ blank :: head ++ '\x7d' :: block.content ++ "\x7b/if\x7d".toList

/-- An operator with the value behind it. Where an operator of two characters leaves a value, it is that one. -/
structure Operates (operator : String) (value : List Char) : Prop where
  known : operator ∈ ["==","!=",">=","<=",">","<"]
  some : value ≠ []
  longest : ∀ longer ∈ ["==","!=",">=","<="], ∀ left, left ≠ [] →
    operator.toList ++ value = longer.toList ++ left → operator = longer

/-- A text that is a row rule: a field, an operator and a value up to the closing brace, a style and the closing
tag. -/
structure IsRowRule (rule : RowRule) (raw : List Char) : Prop where
  field : IsRun isWord rule.field.toList
  style : IsRun isWord rule.style.toList
  raw_eq : ∃ value, Operates rule.operator value ∧ '\x7d' ∉ value ∧
    rule.value = String.ofList (trim value) ∧
      raw = "\x7bif:".toList ++ rule.field.toList ++ rule.operator.toList ++ value ++ '\x7d' :: rule.style.toList ++
        "\x7b/if\x7d".toList

theorem isConditional_of_reads {block : Conditional} (reads : conditional? text = some (block,rest)) :
    ∃ raw, IsConditional block raw ∧ text = raw ++ rest := by
  obtain ⟨text₁,begins,reads⟩ := Option.bind_eq_some_iff.mp reads
  obtain ⟨⟨head,text₂⟩,headed,reads⟩ := Option.bind_eq_some_iff.mp reads
  obtain ⟨split₁,closed⟩ := of_untilBrace? headed
  dsimp only at reads
  split at reads
  · next blank c others =>
    split at reads
    · next isBlank =>
      obtain ⟨⟨content,text₃⟩,cut,reads⟩ := Option.bind_eq_some_iff.mp reads
      obtain ⟨rfl,rfl⟩ := Prod.mk.inj (Option.some.inj reads)
      have unclosed := occursIn_of_cut? (by decide) cut
      refine ⟨_,⟨fun inside => ?_,blank,c :: others,isBlank,List.cons_ne_nil c others,
        fun member => closed (List.mem_cons_of_mem blank member),rfl,rfl⟩,?_⟩
      · exact nomatch unclosed.symm.trans (occursIn_iff.mpr inside)
      · rw [eq_append_of_after? begins,split₁,eq_append_of_cut? cut]
        simp
    · exact nomatch reads
  · exact nomatch reads

theorem conditional?_append {block : Conditional} (isBlock : IsConditional block raw) (rest : List Char) :
    conditional? (raw ++ rest) = some (block,rest) := by
  obtain ⟨condition,content⟩ := block
  obtain ⟨unclosed,blank,head,isBlank,some,closed,rfl,rfl⟩ := isBlock
  obtain ⟨c,others,rfl⟩ := List.exists_cons_of_ne_nil some
  have other : blank ≠ '\x7d' := by
    rintro rfl
    exact absurd isBlank (by decide)
  have closed' : '\x7d' ∉ blank :: c :: others := List.not_mem_cons_of_ne_of_not_mem (Ne.symm other) closed
  have absent : occursIn "\x7b/if\x7d".toList content = false := by
    rw [← Bool.not_eq_true,occursIn_iff]
    exact unclosed
  have begins : "\x7b/if\x7d".toList = '\x7b' :: "/if\x7d".toList := by decide
  have cut : cut? "\x7b/if\x7d".toList (content ++ ("\x7b/if\x7d".toList ++ rest)) = _ :=
    begins ▸ cut?_piece (by decide) (begins ▸ absent) rest
  have split : "\x7b#if".toList ++ blank :: c :: others ++ '\x7d' :: content ++ "\x7b/if\x7d".toList ++ rest =
      "\x7b#if".toList ++ ((blank :: c :: others) ++ '\x7d' :: (content ++ ("\x7b/if\x7d".toList ++ rest))) := by
    simp
  rw [split,conditional?]
  simp only [after?_append,Option.bind_eq_bind,Option.bind_some,untilBrace?_inside closed',isBlank,if_true]
  exact congrArg (·.bind fun pair => Option.some
    (Conditional.mk (String.ofList (trim (blank :: c :: others))) pair.1,pair.2)) cut

theorem accepts_conditional : Accepts conditional? IsConditional where
  solid := by
    rintro block raw ⟨-,blank,head,-,-,-,-,rfl⟩
    simp
  reads_iff := by
    refine ⟨isConditional_of_reads,?_⟩
    rintro ⟨raw,isBlock,rfl⟩
    exact conditional?_append isBlock _

theorem rowOperator?_longer {longer : String} {value : List Char}
    (member : longer ∈ ["==","!=",">=","<="]) (some : value ≠ []) :
    rowOperator? (longer.toList ++ value) = Option.some (longer,value) := by
  obtain ⟨c,others,rfl⟩ := List.exists_cons_of_ne_nil some
  simp only [List.mem_cons,List.not_mem_nil,or_false] at member
  rcases member with rfl | rfl | rfl | rfl <;> simp [rowOperator?,rowOperators,after?]

/-- An operator of one character is read where no equals sign with something behind it follows. -/
theorem rowOperator?_shorter {shorter : String} {value : List Char} (short : shorter = ">" ∨ shorter = "<")
    (some : value ≠ []) (alone : ∀ left, value = '=' :: left → left = []) :
    rowOperator? (shorter.toList ++ value) = Option.some (shorter,value) := by
  obtain ⟨c,others,rfl⟩ := List.exists_cons_of_ne_nil some
  by_cases equals : c = '='
  · obtain rfl := equals
    obtain rfl := alone others rfl
    rcases short with rfl | rfl <;> rfl
  · rcases short with rfl | rfl <;> simp [rowOperator?,rowOperators,after?,Ne.symm equals]

theorem rowOperator?_eq_some_iff {head value : List Char} {operator : String} :
    rowOperator? head = some (operator,value) ↔ Operates operator value ∧ head = operator.toList ++ value := by
  constructor
  · intro reads
    obtain ⟨op,member,reads'⟩ := List.exists_of_findSome?_eq_some reads
    split at reads'
    · next c others begins =>
      obtain ⟨rfl,rfl⟩ := Prod.mk.inj (Option.some.inj reads')
      have split := eq_append_of_after? begins
      refine ⟨⟨member,List.cons_ne_nil c others,fun longer member left some same => ?_⟩,split⟩
      rw [split,same,rowOperator?_longer member some] at reads
      exact (Prod.mk.inj (Option.some.inj reads)).1.symm
    · exact nomatch reads'
  · rintro ⟨⟨known,some,longest⟩,rfl⟩
    by_cases long : operator ∈ ["==","!=",">=","<="]
    · exact rowOperator?_longer long some
    · have short : operator = ">" ∨ operator = "<" := by
        simp only [List.mem_cons,List.not_mem_nil,or_false] at known long
        tauto
      refine rowOperator?_shorter short some fun left same => ?_
      by_contra some'
      rcases short with rfl | rfl
      · exact absurd (longest ">=" (by simp) left some' (by rw [same]; rfl)) (by decide)
      · exact absurd (longest "<=" (by simp) left some' (by rw [same]; rfl)) (by decide)

theorem isRowRule_of_reads {rule : RowRule} (reads : rowRule? text = some (rule,rest)) :
    ∃ raw, IsRowRule rule raw ∧ text = raw ++ rest := by
  obtain ⟨text₁,begins,reads⟩ := Option.bind_eq_some_iff.mp reads
  obtain ⟨⟨field,text₂⟩,fielded,reads⟩ := Option.bind_eq_some_iff.mp reads
  obtain ⟨⟨head,text₃⟩,headed,reads⟩ := Option.bind_eq_some_iff.mp reads
  obtain ⟨⟨operator,value⟩,operated,reads⟩ := Option.bind_eq_some_iff.mp reads
  obtain ⟨⟨style,text₄⟩,styled,reads⟩ := Option.bind_eq_some_iff.mp reads
  obtain ⟨text₅,closes,reads⟩ := Option.bind_eq_some_iff.mp reads
  obtain ⟨rfl,rfl⟩ := Prod.mk.inj (Option.some.inj reads)
  obtain ⟨split₁,isField⟩ := exists_of_run? fielded
  obtain ⟨split₂,closed⟩ := of_untilBrace? headed
  obtain ⟨operates,split₃⟩ := rowOperator?_eq_some_iff.mp operated
  obtain ⟨split₄,isStyle⟩ := exists_of_run? styled
  refine ⟨_,⟨by simpa using isField,by simpa using isStyle,value,operates,
    fun member => closed (split₃ ▸ List.mem_append_right _ member),rfl,rfl⟩,?_⟩
  rw [eq_append_of_after? begins,split₁,split₂,split₃,split₄,eq_append_of_after? closes]
  simp

theorem rowRule?_append {rule : RowRule} (isRule : IsRowRule rule raw) (rest : List Char) :
    rowRule? (raw ++ rest) = some (rule,rest) := by
  obtain ⟨field,operator,value',style⟩ := rule
  obtain ⟨isField,isStyle,value,operates,closed,rfl,rfl⟩ := isRule
  dsimp only at isField isStyle operates ⊢
  have operated := rowOperator?_eq_some_iff.mpr ⟨operates,rfl⟩
  have closed' : '\x7d' ∉ operator.toList ++ value := by
    intro member
    rcases List.mem_append.mp member with member | member
    · have known := operates.known
      simp only [List.mem_cons,List.not_mem_nil,or_false] at known
      rcases known with rfl | rfl | rfl | rfl | rfl | rfl <;> exact absurd member (by decide)
    · exact closed member
  have halts (tail : List Char) : Halts isWord (operator.toList ++ tail) := by
    have known := operates.known
    simp only [List.mem_cons,List.not_mem_nil,or_false] at known
    rcases known with rfl | rfl | rfl | rfl | rfl | rfl <;> exact .cons (by decide) _
  have fielded := run?_append isField (halts (value ++ '\x7d' :: (style.toList ++ ("\x7b/if\x7d".toList ++ rest))))
  have headed := untilBrace?_inside closed' (style.toList ++ ("\x7b/if\x7d".toList ++ rest))
  have styled : run? _ (style.toList ++ ("\x7b/if\x7d".toList ++ rest)) = _ :=
    run?_append isStyle (.cons (by decide) _)
  have split : "\x7bif:".toList ++ field.toList ++ operator.toList ++ value ++ '\x7d' :: style.toList ++
      "\x7b/if\x7d".toList ++ rest = "\x7bif:".toList ++ (field.toList ++ (operator.toList ++ (value ++
        '\x7d' :: (style.toList ++ ("\x7b/if\x7d".toList ++ rest))))) := by simp
  rw [List.append_assoc] at headed
  rw [split,rowRule?]
  simp only [after?_append,Option.bind_eq_bind,Option.bind_some,fielded,headed,operated,styled,
    String.ofList_toList]

theorem accepts_rowRule : Accepts rowRule? IsRowRule where
  solid := by
    rintro rule raw ⟨-,-,value,-,-,-,rfl⟩
    simp
  reads_iff := by
    refine ⟨isRowRule_of_reads,?_⟩
    rintro ⟨raw,isRule,rfl⟩
    exact rowRule?_append isRule _

/-- The lexers of blocks find what the grammar says there is: the conditional blocks of a text one after the
other, the next of them from a position on, and the first row rule. -/
theorem blocks_accepted (text : List Char) :
    (∀ found, all conditional? text = found ↔ Lists IsConditional 0 text found) ∧
      (∀ pos f, nextConditional? text pos = some f ↔
        ∃ rest, Leftmost IsConditional pos (text.drop pos) f rest) ∧
      (∀ f, first? rowRule? text = some f ↔ ∃ rest, Leftmost IsRowRule 0 text f rest) ∧
      (first? rowRule? text = none ↔ ∀ rule raw, IsRowRule rule raw → ¬ raw <:+: text) :=
  ⟨fun _ => accepts_conditional.all_eq_iff,fun _ _ => accepts_conditional.firstFrom_eq_some_iff,
    fun _ => accepts_rowRule.firstFrom_eq_some_iff,accepts_rowRule.first?_eq_none_iff⟩

end MailMerge.Directive
