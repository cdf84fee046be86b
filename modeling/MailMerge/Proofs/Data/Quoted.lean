import MailMerge.Proofs.Data.Judged
import MailMerge.Proofs.Text.Search
import MailMerge.Proofs.Xml.Spelling
import MailMerge.Text.Word

/-! Comparisons with a quoted literal. The quotes do not keep operators from being found in the literal, so
a literal that an operator is written in leaves no single comparison behind. Any other literal is taken
as it is: a text equals it if it is the same text, an integer if the literal is the same number.
Booleans are compared by their names in messages, which are not the words they are displayed as.
-/
namespace MailMerge
open Text

namespace Comparison

/-- No operator is written anywhere in a text. -/
def Unmarked (text : List Char) : Prop :=
  ∀ entry ∈ spellings, ¬entry.1.toList <:+: text

theorem read?_eq_none_iff {text : List Char} :
    read? text = none ↔ ∀ entry ∈ spellings, ¬entry.1.toList <+: text := by
  simp only [read?,List.findSome?_eq_none_iff,Option.map_eq_none_iff,after?_eq_none_iff]

theorem unmarked_cons_iff {c : Char} {text : List Char} :
    Unmarked (c :: text) ↔ read? (c :: text) = none ∧ Unmarked text := by
  simp only [Unmarked,read?_eq_none_iff,List.infix_cons_iff,not_or,← forall_and]

/-- The characters that operators are written with. -/
def isMark (c : Char) : Bool :=
  c == '=' || c == '!' || c == '<' || c == '>'

theorem isMark_of_mem {entry : String × Comparison} (listed : entry ∈ spellings) :
    entry.1.toList ≠ [] ∧ ∀ c ∈ entry.1.toList, isMark c = true := by
  have all : ∀ entry ∈ spellings, entry.1.toList ≠ [] ∧ entry.1.toList.all isMark = true := by decide
  exact (all entry listed).imp_right List.all_eq_true.mp

theorem read?_of_other {c : Char} (other : isMark c = false) (text : List Char) :
    read? (c :: text) = none := by
  refine read?_eq_none_iff.mpr fun entry listed starts => ?_
  obtain ⟨some,marked⟩ := isMark_of_mem listed
  obtain ⟨d,rest,same⟩ := List.exists_cons_of_ne_nil some
  rw [same,List.cons_prefix_cons] at starts
  have mark := marked d (same ▸ List.mem_cons_self)
  rw [starts.1,other] at mark
  exact Bool.noConfusion mark

theorem unmarked_nil : Unmarked [] := by
  intro entry listed inside
  exact (isMark_of_mem listed).1 (List.infix_nil.mp inside)

theorem unmarked_quoted_iff {text : List Char} :
    Unmarked ('"' :: text ++ ['"']) ↔ Unmarked text := by
  rw [List.cons_append,unmarked_cons_iff,and_iff_right (read?_of_other (by decide) _)]
  refine forall₂_congr fun entry listed => not_congr ?_
  rw [List.infix_concat_iff,or_iff_right]
  rintro ⟨front,same⟩
  obtain ⟨some,marked⟩ := isMark_of_mem listed
  have last : '"' ∈ entry.1.toList := by
    have same' := congrArg List.getLast? same
    rw [List.getLast?_append_of_ne_nil _ some,List.getLast?_concat] at same'
    exact List.mem_of_getLast? same'
  exact absurd (marked _ last) (by decide)

end Comparison

namespace Condition
open Comparison

variable {fuel : Nat} {text : List Char} (operand : List Char)

theorem split_run {run : List Char} (other : ∀ c ∈ run, isMark c = false) :
    split (run.length + fuel) operand (run ++ text) = split fuel (run.reverse ++ operand) text := by
  induction run generalizing operand with
  | nil => simp
  | cons c run ih =>
    obtain ⟨here,rest⟩ := List.forall_mem_cons.mp other
    rw [List.length_cons,Nat.succ_add,List.cons_append,split,read?_of_other here]
    simpa using ih (c :: operand) rest

theorem split_of_unmarked (unmarked : Unmarked text) (enough : text.length ≤ fuel) :
    split fuel operand text = (operand.reverse ++ text,[]) := by
  induction text generalizing fuel operand with
  | nil => cases fuel <;> simp [split]
  | cons c text ih =>
    obtain ⟨unread,rest⟩ := unmarked_cons_iff.mp unmarked
    obtain ⟨fuel,rfl⟩ := Nat.exists_eq_add_one_of_ne_zero (Nat.ne_zero_of_lt enough)
    rw [split,unread]
    simpa using ih (c :: operand) rest (Nat.le_of_succ_le_succ enough)

theorem split_of_marked (marked : ¬Unmarked text) (enough : text.length ≤ fuel) :
    (split fuel operand text).2 ≠ [] := by
  induction text generalizing fuel operand with
  | nil => exact absurd unmarked_nil marked
  | cons c text ih =>
    obtain ⟨fuel,rfl⟩ := Nat.exists_eq_add_one_of_ne_zero (Nat.ne_zero_of_lt enough)
    rw [split]
    split
    · exact List.cons_ne_nil _ _
    · next unread =>
      have rest : ¬Unmarked text := fun rest => marked (unmarked_cons_iff.mpr ⟨unread,rest⟩)
      exact ih (c :: operand) rest (Nat.le_of_succ_le_succ enough)

/-- The condition that compares a path with a quoted literal. -/
def quoting (path operator literal : String) : String :=
  path ++ " " ++ operator ++ " \"" ++ literal ++ "\""

/-- The quoted literal. -/
def quote (literal : String) : String :=
  "\"" ++ literal ++ "\""

section
variable {path : String} (some : path ≠ "") (key : ∀ c ∈ path.toList, isKeyChar c = true)

theorem toList_quote (literal : String) : (quote literal).toList = '"' :: literal.toList ++ ['"'] := by
  simp [quote]

theorem toList_quoting (path operator literal : String) : (quoting path operator literal).toList =
    path.toList ++ [' '] ++ (operator.toList ++ ' ' :: (quote literal).toList) := by
  simp [quoting,toList_quote]

theorem trim_quote (literal : String) : trim (quote literal).toList = (quote literal).toList := by
  rw [toList_quote]
  refine trim_of_solid (fun c first => ?_) fun c last => ?_
  · obtain rfl : '"' = c := Option.some.inj first
    decide
  · rw [List.getLast?_concat] at last
    obtain rfl := Option.some.inj last
    decide

theorem literal_quote (literal : String) :
    Condition.literal (quote literal).toList = literal.toList := by
  rw [Condition.literal,trim_quote,toList_quote]
  simp

theorem isNumeral_quote (literal : String) : isNumeral (quote literal).toList = false := by
  rw [isNumeral,trim_quote,toList_quote]
  rfl

theorem rightValue_quote {literal : String} {context : Value}
    (absent : context.resolve (quote literal) = .empty) :
    rightValue (quote literal).toList context = .ok (.text literal) := by
  rw [rightValue,isNumeral_quote,String.ofList_toList,absent,literal_quote]
  simp [Value.isEmptyText]

theorem not_isBlank_of_isKeyChar {c : Char} (key : isKeyChar c = true) : isBlank c = false := by
  refine Bool.eq_false_iff.mpr fun blank => ?_
  rw [isKeyChar,Xml.isWord_of_isBlank blank,Bool.false_or,beq_iff_eq] at key
  exact absurd (key ▸ blank) (by decide)

theorem not_isMark_of_isKeyChar {c : Char} (key : isKeyChar c = true) : isMark c = false := by
  refine Bool.eq_false_iff.mpr fun mark => ?_
  simp only [isMark,Bool.or_eq_true,beq_iff_eq] at mark
  rcases mark with ((rfl | rfl) | rfl) | rfl <;> exact absurd key (by decide)

include key

/-- What an expression is split into whose first operand is a path. -/
theorem split_quoting {operator : String} (literal : String) {op : Comparison}
    (reads : ∀ text, Comparison.read? (operator.toList ++ ' ' :: text) = Option.some (op,' ' :: text)) :
    ∃ fuel, (quote literal).toList.length ≤ fuel ∧
      split ((quoting path operator literal).toList.length + 1) []
        (quoting path operator literal).toList =
          (path.toList,(op,(split fuel [] (quote literal).toList).1) ::
            (split fuel [] (quote literal).toList).2) := by
  have run : ∀ c ∈ path.toList ++ [' '], isMark c = false := by
    intro c member
    rcases List.mem_append.mp member with inside | blank
    · exact not_isMark_of_isKeyChar (key c inside)
    · rw [List.mem_singleton.mp blank]
      decide
  have solid : path.toList.reverse.dropWhile isBlank = path.toList.reverse := by
    cases reversed : path.toList.reverse with
    | nil => rfl
    | cons c rest =>
      have member : c ∈ path.toList := List.mem_reverse.mp (reversed ▸ List.mem_cons_self)
      exact List.dropWhile_cons_of_neg (by simp [not_isBlank_of_isKeyChar (key c member)])
  have bare : (' ' :: (quote literal).toList).dropWhile isBlank = (quote literal).toList := by
    rw [toList_quote]
    rfl
  have size : (quoting path operator literal).toList.length + 1 = (path.toList ++ [' ']).length +
      (operator.toList.length + (quote literal).toList.length + 1 + 1) := by
    simp only [toList_quoting,List.length_append,List.length_cons,List.length_nil]
    omega
  refine ⟨operator.toList.length + (quote literal).toList.length + 1,by omega,?_⟩
  rw [size,toList_quoting,split_run [] run]
  have first := reads (quote literal).toList
  cases symbol : operator.toList with
  | nil =>
    rw [symbol,List.nil_append,read?_of_other (by decide)] at first
    exact nomatch first
  | cons mark rest =>
    rw [symbol,List.cons_append] at first
    rw [List.cons_append,split,first]
    dsimp only
    rw [bare]
    simp [solid,show isBlank ' ' = true by decide]

include some

theorem trim_quoting (operator literal : String) :
    trim (quoting path operator literal).toList = (quoting path operator literal).toList := by
  obtain ⟨c,rest,path_eq⟩ := List.exists_cons_of_ne_nil fun none => some (String.toList_eq_nil_iff.mp none)
  refine trim_of_solid (fun d first => ?_) fun d last => ?_
  · rw [toList_quoting,path_eq] at first
    obtain rfl : c = d := Option.some.inj first
    exact not_isBlank_of_isKeyChar (key c (path_eq ▸ List.mem_cons_self))
  · have ends : (quoting path operator literal).toList =
        path.toList ++ [' '] ++ (operator.toList ++ ' ' :: '"' :: literal.toList) ++ ['"'] := by
      simp [toList_quoting,toList_quote]
    rw [ends,List.getLast?_concat] at last
    obtain rfl := Option.some.inj last
    decide

variable {context : Value} {literal : String} (absent : context.resolve (quote literal) = .empty)
include absent

/-- A path is compared with the literal, unless the literal holds another operator. -/
theorem judge_quoting {operator : String} {op : Comparison}
    (reads : ∀ text, Comparison.read? (operator.toList ++ ' ' :: text) = Option.some (op,' ' :: text)) :
    (Unmarked literal.toList → judge (quoting path operator literal) context =
      toVerdict (compare (context.resolve path) op (.text literal))) ∧
    (¬Unmarked literal.toList →
      judge (quoting path operator literal) context = .ok (.invalid .notOneOperator)) := by
  obtain ⟨fuel,enough,parts⟩ := split_quoting key literal reads
  have left : path.toList.isEmpty = false := by simpa using some
  have right : (quote literal).toList.isEmpty = false := by simp [toList_quote]
  rw [judge,trim_quoting some key,evaluate,parts]
  constructor
  · intro unmarked
    have whole : Unmarked (quote literal).toList := by
      rw [toList_quote]
      exact unmarked_quoted_iff.mpr unmarked
    rw [split_of_unmarked [] whole enough]
    simp only [List.reverse_nil,List.nil_append,left,right,Bool.or_self,Bool.false_eq_true,if_false,
      rightValue_quote absent,String.ofList_toList]
    rfl
  · intro marked
    have whole : ¬Unmarked (quote literal).toList := by
      rw [toList_quote]
      exact unmarked_quoted_iff.not.mpr marked
    obtain ⟨part,more,eq⟩ := List.exists_cons_of_ne_nil (split_of_marked [] whole enough)
    rw [eq]
    rfl

end

/-- A conversion to a number fails for what is no number, or breaks down. -/
theorem fault_of_number {v : Value} {fault : Fault} (failed : number v = .error fault) :
    (∃ shown, fault = .notANumber shown) ∨ isInvalidity fault = false := by
  unfold number at failed
  split at failed
  · exact nomatch failed
  · split at failed
    · exact nomatch failed
    · exact Or.inr (Except.error.inj failed ▸ rfl)
  · exact nomatch failed
  · split at failed
    · split at failed
      · exact nomatch failed
      · exact Or.inr (Except.error.inj failed ▸ rfl)
    · exact Or.inl ⟨_,(Except.error.inj failed).symm⟩
  · exact Or.inl ⟨_,(Except.error.inj failed).symm⟩

/-- What is loosely compared is never found invalid. -/
theorem valid_of_looseEqual {left right : Value} {fault : Fault}
    (failed : looseEqual left right = .error fault) : isInvalidity fault = false := by
  unfold looseEqual at failed
  split at failed
  · unfold falseIfNotANumber at failed
    split at failed
    · exact nomatch failed
    · next other =>
      have caught : (∃ shown, fault = .notANumber shown) ∨ isInvalidity fault = false := by
        rcases cases_of_bind_eq_error failed with first | ⟨x,-,failed⟩
        · exact fault_of_number first
        · rcases cases_of_bind_eq_error failed with second | ⟨y,-,impossible⟩
          · exact fault_of_number second
          · exact nomatch impossible
      rcases caught with ⟨shown,rfl⟩ | valid
      · exact absurd failed (other shown)
      · exact valid
  · split at failed <;> exact nomatch failed

theorem negation_of_equality (left right : Value) :
    (toVerdict (compare left .unequal right)).map Verdict.isTrue =
      (toVerdict (compare left .equal right)).map fun verdict => !verdict.isTrue := by
  rw [compare,compare]
  cases result : looseEqual left right with
  | ok b => rfl
  | error fault =>
    have valid := valid_of_looseEqual result
    simp [Except.map,toVerdict,valid]

end Condition

/-- Texts, booleans and integers. -/
def Value.IsBasic (v : Value) : Prop :=
  (∃ t, v = .text t) ∨ (∃ b, v = .bool b) ∨ ∃ n, v = .int n

namespace Condition
open Comparison

/-- The operators of equality with a blank after them. -/
theorem read?_equality (text : List Char) :
    Comparison.read? ("==".toList ++ ' ' :: text) = some (.equal,' ' :: text) ∧
      Comparison.read? ("!=".toList ++ ' ' :: text) = some (.unequal,' ' :: text) :=
  ⟨rfl,rfl⟩

/-- What equals its own display. -/
theorem equals_display_iff {v : Value} (plain : v.IsBasic) {literal : String}
    (displayed : v.display = .ok literal) :
    toVerdict (compare v .equal (.text literal)) = .ok (.holds true) ↔
      (∀ b, v ≠ .bool b) ∧ ∀ n, v = .int n → (Binary64.ofInt? n).isSome = true := by
  rcases plain with ⟨t,rfl⟩ | ⟨b,rfl⟩ | ⟨n,rfl⟩
  · obtain rfl : t = literal := Except.ok.inj displayed
    have equal : compare (.text t) .equal (.text t) = .ok true := by
      simp [compare,looseEqual,isNumber,Value.bare,Scalar.bare]
    rw [equal]
    exact iff_of_true rfl (by simp)
  · have shown : compare (.bool b) .equal (.text literal) = .ok ((Value.bool b).bare == literal) := rfl
    rw [shown]
    refine iff_of_false ?_ fun holds => holds.1 b rfl
    have different : ((Value.bool b).bare == literal) = false := by
      cases b <;> cases displayed <;> decide
    rw [different]
    simp [toVerdict]
  · obtain rfl : literal = toString n := Number.eq_of_digits displayed
    have finite_iff : ((∀ b, Value.int n ≠ .bool b) ∧ ∀ m, Value.int n = .int m →
        (Binary64.ofInt? m).isSome = true) ↔ (Binary64.ofInt? n).isSome = true :=
      ⟨fun holds => holds.2 n rfl,fun finite => ⟨by simp,fun m same => by cases same; exact finite⟩⟩
    rw [finite_iff]
    cases near : Binary64.ofInt? n with
    | none =>
      have broken : number (.int n) = .error (.breakdown .overflow) := by rw [number,near]
      have failed : compare (.int n) .equal (.text (toString n)) = .error (.breakdown .overflow) := by
        simp [compare,looseEqual,isNumber,broken,falseIfNotANumber,bind,Except.bind]
      rw [failed]
      simp [toVerdict,isInvalidity]
    | some x =>
      have first : number (.int n) = .ok x := by rw [number,near]
      have same := Binary64.same_self (Binary64.ofDecimal_of_ofInt? near).2
      have equal : compare (.int n) .equal (.text (toString n)) = .ok true := by
        simp only [compare,looseEqual,isNumber,Bool.true_or,if_true,first,number_digits near,bind,
          Except.bind,pure,Except.pure,same,falseIfNotANumber]
      rw [equal]
      exact iff_of_true rfl rfl

/-- How a path that leads to a text, a boolean or an integer compares with a quoted literal. -/
theorem judge_quoted {path literal : String} {context : Value} (some : path ≠ "")
    (key : ∀ c ∈ path.toList, isKeyChar c = true) (absent : context.resolve (quote literal) = .empty)
    (plain : (context.resolve path).IsBasic) :
    (¬Unmarked literal.toList → ∀ operator ∈ ["==","!="],
      judge (quoting path operator literal) context = .ok (.invalid .notOneOperator)) ∧
    (Unmarked literal.toList → (judge (quoting path "!=" literal) context).map Verdict.isTrue =
      (judge (quoting path "==" literal) context).map fun verdict => !verdict.isTrue) ∧
    (Unmarked literal.toList → ∀ t, context.resolve path = .text t →
      judge (quoting path "==" literal) context = .ok (.holds (t == literal))) ∧
    ((context.resolve path).display = .ok literal →
      (judge (quoting path "==" literal) context = .ok (.holds true) ↔ Unmarked literal.toList ∧
        (∀ b, context.resolve path ≠ .bool b) ∧
          ∀ n, context.resolve path = .int n → (Binary64.ofInt? n).isSome = true)) := by
  obtain ⟨equal,invalid⟩ := judge_quoting some key absent fun text => (read?_equality text).1
  obtain ⟨unequal,invalid'⟩ := judge_quoting some key absent fun text => (read?_equality text).2
  refine ⟨fun marked => ?_,fun unmarked => ?_,fun unmarked t found => ?_,fun displayed => ?_⟩
  · simpa using ⟨invalid marked,invalid' marked⟩
  · rw [unequal unmarked,equal unmarked]
    exact negation_of_equality _ _
  · rw [equal unmarked,found]
    rfl
  · by_cases unmarked : Unmarked literal.toList
    · rw [equal unmarked,and_iff_right unmarked]
      exact equals_display_iff plain displayed
    · rw [invalid unmarked]
      exact iff_of_false nofun fun holds => unmarked holds.1

/-- A mapping that holds a boolean. -/
private def member : Value :=
  .map [(.text "vip",.bool true)]

theorem judge_quoted_boolean : "vip" ≠ "" ∧ (∀ c ∈ "vip".toList, isKeyChar c = true) ∧
    member.resolve (quote "true") = .empty ∧ (member.resolve "vip").IsBasic ∧
      (member.resolve "vip").display = .ok "true" ∧
        judge (quoting "vip" "==" "true") member ≠ .ok (.holds true) := by
  have key : ∀ c ∈ "vip".toList, isKeyChar c = true := List.all_eq_true.mp (by decide)
  have found : member.resolve "vip" = .bool true := by rfl
  have absent : member.resolve (quote "true") = .empty := by rfl
  have plain : (member.resolve "vip").IsBasic := Or.inr (Or.inl ⟨true,found⟩)
  have displayed : (member.resolve "vip").display = .ok "true" := by rw [found]; rfl
  obtain ⟨-,-,-,shown⟩ := judge_quoted (by decide) key absent plain
  exact ⟨by decide,key,absent,plain,displayed,fun holds => ((shown displayed).mp holds).2.1 true found⟩

end Condition
end MailMerge
