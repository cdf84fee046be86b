import MailMerge.Xml.RootTag
import MailMerge.Proofs.Directive.Accepted
import MailMerge.Proofs.Xml.Spelling

/-! The opening tag that a document gets back. A tag is put together from a name and attributes, some of which
declare namespaces; what is scanned for declarations in its text are just those attributes. The tag that is given
back is one of the two tags with declarations of the other at its end, so that it declares what either declares,
and the written document's namespaces come first.
-/
namespace MailMerge.Xml.RootTag
open Text Directive

variable {text rest : List Char}

/-- The characters of an attribute's name. -/
def isNamed (c : Char) : Bool :=
  !isBlank c && c != '=' && c != '>' && c != '/'

/-- The characters of a tag's name. -/
def isTagged (c : Char) : Bool :=
  !isBlank c && c != '>' && c != '/'

/-- The characters of a prefix. -/
def isLabelled (c : Char) : Bool :=
  isWord c || c == '.' || c == '-'

/-- An attribute as it is written in an opening tag: the blanks in front of it, its name, the blanks around the
equals sign and its value in quotes. -/
structure Attribute where
  apart : List Char
  name : List Char
  before : List Char
  after : List Char
  quote : Char
  value : List Char
  separate : IsRun isBlank apart
  named : IsRun isNamed name
  blank_before : before.all isBlank = true
  blank_after : after.all isBlank = true
  quotes : quote = '"' ∨ quote = '\''
  closed : quote ∉ value

namespace Attribute

/-- The characters of an attribute without the blanks in front of it. -/
def raw (a : Attribute) : List Char :=
  a.name ++ (a.before ++ '=' :: (a.after ++ a.quote :: (a.value ++ [a.quote])))

def written (a : Attribute) : List Char :=
  a.apart ++ a.raw

/-- The prefix that an attribute declares, empty for the default namespace; `none` when it is no declaration. -/
def label? (a : Attribute) : Option (List Char) :=
  match after? "xmlns".toList a.name with
  | some [] => some []
  | some (':' :: label) => if !label.isEmpty && label.all isLabelled then some label else none
  | _ => none

/-- The declaration that an attribute is. -/
def declaration? (a : Attribute) : Option Declaration :=
  a.label?.map fun label => ⟨label,a.value,a.raw⟩

/-- An attribute behind a single space. -/
def spaced (a : Attribute) : Attribute :=
  { a with apart := [' '], separate := ⟨List.cons_ne_nil _ _,List.all_eq_true.mp rfl⟩ }

end Attribute

/-- An opening tag as it is written. -/
structure Opening where
  name : List Char
  attributes : List Attribute
  blanks : List Char
  closed : Bool
  named : IsRun isTagged name
  begins : name.head? ≠ some '?' ∧ name.head? ≠ some '!'
  blank : blanks.all isBlank = true

namespace Opening

/-- The characters of a tag up to the blanks at its end. -/
def front (tag : Opening) : List Char :=
  '<' :: (tag.name ++ tag.attributes.flatMap Attribute.written)

/-- What ends a tag behind its attributes. -/
def finish (tag : Opening) : List Char :=
  tag.blanks ++ if tag.closed then "/>".toList else ">".toList

def written (tag : Opening) : List Char :=
  tag.front ++ tag.finish

/-- The word that begins a declaration stands in a tag only there. -/
structure Plain (tag : Opening) : Prop where
  name : ¬ "xmlns".toList <:+: tag.name
  attributes : ∀ a ∈ tag.attributes, a.label? = none → ¬ "xmlns".toList <:+: a.raw

/-- The declarations among the attributes of a tag. -/
def declared (tag : Opening) : List Declaration :=
  tag.attributes.filterMap Attribute.declaration?

/-- The namespace that a tag binds a prefix to, by the last declaration of it. -/
def space? (tag : Opening) (label : List Char) : Option (List Char) :=
  (tag.declared.reverse.find? (·.label == label)).map (·.space)

end Opening

/-! Reading a tag. -/

theorem quotedLexeme?_append {quote : Char} (quotes : quote = '"' ∨ quote = '\'') {value : List Char}
    (closed : quote ∉ value) (rest : List Char) :
    quotedLexeme? (quote :: (value ++ quote :: rest)) = some (quote :: value ++ [quote],rest) := by
  rcases quotes with rfl | rfl <;> simp [quotedLexeme?,cut?_append closed]

theorem of_quotedLexeme? {quoted : List Char} (reads : quotedLexeme? text = some (quoted,rest)) :
    ∃ quote value, (quote = '"' ∨ quote = '\'') ∧ quote ∉ value ∧ quoted = quote :: value ++ [quote] ∧
      text = quote :: (value ++ quote :: rest) := by
  cases text with
  | nil => exact nomatch reads
  | cons quote text =>
    simp only [quotedLexeme?] at reads
    split at reads
    · next quotes =>
      obtain ⟨⟨value,tail⟩,cut,same⟩ := Option.map_eq_some_iff.mp reads
      obtain ⟨rfl,rfl⟩ := Prod.mk.inj same
      obtain ⟨rfl,closed⟩ := of_cut? cut
      exact ⟨quote,value,by simpa using quotes,closed,rfl,rfl⟩
    · exact nomatch reads

/-- A class without blanks stops at blanks as well as at a mark behind them. -/
theorem halts_blanks {accepts : Char → Bool} {blanks : List Char} (blank : blanks.all isBlank = true)
    (refused : ∀ c, isBlank c = true → accepts c = false) {mark : Char} (marked : accepts mark = false) :
    Halts accepts (blanks ++ mark :: rest) := by
  cases blanks with
  | nil => exact .cons marked rest
  | cons c blanks => exact .cons (refused c (List.all_eq_true.mp blank c List.mem_cons_self)) _

theorem isNamed_of_isBlank {c : Char} (blank : isBlank c = true) : isNamed c = false := by
  simp [isNamed,blank]

theorem isTagged_of_isBlank {c : Char} (blank : isBlank c = true) : isTagged c = false := by
  simp [isTagged,blank]

theorem isLabelled_of_isBlank {c : Char} (blank : isBlank c = true) : isLabelled c = false := by
  have others : (c == '.' || c == '-') = false :=
    eq_false_of_isBlank (fun c => c == '.' || c == '-') (by decide) blank
  rw [isLabelled,isWord_of_isBlank blank,Bool.false_or,others]

/-- Blanks are skipped in front of anything else. -/
theorem skip_blanks {blanks : List Char} (blank : blanks.all isBlank = true) {c : Char}
    (solid : isBlank c = false) : (blanks ++ c :: rest).dropWhile isBlank = c :: rest :=
  dropWhile_run blank (.cons solid rest)

theorem isBlank_quote {quote : Char} (quotes : quote = '"' ∨ quote = '\'') : isBlank quote = false := by
  rcases quotes with rfl | rfl <;> decide

theorem skipAttribute?_written (a : Attribute) (rest : List Char) :
    skipAttribute? (a.written ++ rest) = some rest := by
  obtain ⟨c,others,name_eq⟩ := List.exists_cons_of_ne_nil a.named.some
  have solid : isBlank c = false := by
    rw [← Bool.not_eq_true]
    intro blank
    have named := a.named.each c (name_eq ▸ List.mem_cons_self)
    exact nomatch named.symm.trans (isNamed_of_isBlank blank)
  have named : (a.raw ++ rest).dropWhile isNamed =
      a.before ++ '=' :: (a.after ++ a.quote :: (a.value ++ a.quote :: rest)) := by
    simp only [Attribute.raw,List.append_assoc,List.cons_append,List.nil_append]
    exact dropWhile_run (List.all_eq_true.mpr a.named.each)
      (halts_blanks a.blank_before (fun _ => isNamed_of_isBlank) (by decide))
  have apart : (a.written ++ rest).dropWhile isBlank = a.raw ++ rest := by
    simp only [Attribute.written,Attribute.raw,name_eq,List.append_assoc,List.cons_append]
    exact skip_blanks (List.all_eq_true.mpr a.separate.each) solid
  have shorter : (a.raw ++ rest).length ≠ (a.written ++ rest).length := by
    have some := List.length_pos_iff.mpr a.separate.some
    simp only [Attribute.written,List.length_append]
    omega
  have shorter' : (a.before ++ '=' :: (a.after ++ a.quote :: (a.value ++ a.quote :: rest))).length ≠
      (a.raw ++ rest).length := by
    have some := List.length_pos_iff.mpr a.named.some
    simp only [Attribute.raw,List.length_append,List.length_cons,List.length_nil]
    omega
  have named' : (a.raw ++ rest).dropWhile (fun c => !isBlank c && c != '=' && c != '>' && c != '/') = _ := named
  have equals : (a.before ++ '=' :: (a.after ++ a.quote :: (a.value ++ a.quote :: rest))).dropWhile isBlank = _ :=
    skip_blanks a.blank_before (by decide)
  have quoted : (a.after ++ a.quote :: (a.value ++ a.quote :: rest)).dropWhile isBlank = _ :=
    skip_blanks a.blank_after (isBlank_quote a.quotes)
  simp only [skipAttribute?,apart,named',equals,beq_iff_eq,shorter,shorter',if_false]
  rw [show ∀ t, after? ['='] ('=' :: t) = some t from after?_append ['=']]
  simp only [Option.bind_eq_bind,Option.bind_some,quoted,quotedLexeme?_append a.quotes a.closed]

theorem exists_of_skipAttribute? (reads : skipAttribute? text = some rest) :
    ∃ a : Attribute, text = a.written ++ rest := by
  obtain ⟨apart,split,blank,-⟩ := exists_run isBlank text
  simp only [skipAttribute?,beq_iff_eq] at reads
  split at reads
  · exact nomatch reads
  next shorter =>
  obtain ⟨name,split₁,named,-⟩ := exists_run isNamed (text.dropWhile isBlank)
  split at reads
  · exact nomatch reads
  next shorter₁ =>
  obtain ⟨text₂,equals,reads⟩ := Option.bind_eq_some_iff.mp reads
  obtain ⟨⟨quoted,text₃⟩,lexeme,reads⟩ := Option.bind_eq_some_iff.mp reads
  obtain rfl := Option.some.inj reads
  obtain ⟨before,split₂,blank₂,-⟩ := exists_run isBlank ((text.dropWhile isBlank).dropWhile isNamed)
  obtain ⟨after,split₃,blank₃,-⟩ := exists_run isBlank text₂
  obtain ⟨quote,value,quotes,closed,-,split₄⟩ := of_quotedLexeme? lexeme
  have some : apart ≠ [] := fun none => shorter (by rw [none,List.nil_append] at split; rw [← split])
  have some₁ : name ≠ [] := by
    intro none
    rw [none,List.nil_append] at split₁
    exact shorter₁ (congrArg List.length split₁.symm)
  refine ⟨⟨apart,name,before,after,quote,value,⟨some,List.all_eq_true.mp blank⟩,
    ⟨some₁,List.all_eq_true.mp named⟩,blank₂,blank₃,quotes,closed⟩,?_⟩
  have equals : ((text.dropWhile isBlank).dropWhile isNamed).dropWhile isBlank = '=' :: text₂ :=
    eq_append_of_after? equals
  rw [split,split₁,split₂,equals,split₃,split₄]
  simp [Attribute.written,Attribute.raw]

theorem skipAttributes_written {attributes : List Attribute} {tail : List Char}
    (ends : skipAttribute? tail = none) {fuel : Nat}
    (enough : (attributes.flatMap Attribute.written).length ≤ fuel) :
    skipAttributes fuel (attributes.flatMap Attribute.written ++ tail) = tail := by
  induction attributes generalizing fuel with
  | nil => cases fuel <;> simp [skipAttributes,ends]
  | cons a attributes ih =>
    have some := List.length_pos_iff.mpr a.separate.some
    rw [List.flatMap_cons,List.length_append,Attribute.written,List.length_append] at enough
    obtain ⟨fuel,rfl⟩ : ∃ more, fuel = more + 1 := ⟨fuel - 1,by omega⟩
    rw [List.flatMap_cons,List.append_assoc,skipAttributes,skipAttribute?_written]
    exact ih (by omega)

theorem exists_of_skipAttributes (fuel : Nat) (text : List Char) :
    ∃ attributes : List Attribute, text = attributes.flatMap Attribute.written ++ skipAttributes fuel text := by
  induction fuel generalizing text with
  | zero => exact ⟨[],rfl⟩
  | succ fuel ih =>
    cases reads : skipAttribute? text with
    | none => exact ⟨[],by simp [skipAttributes,reads]⟩
    | some rest =>
      obtain ⟨a,rfl⟩ := exists_of_skipAttribute? reads
      obtain ⟨attributes,split⟩ := ih rest
      refine ⟨a :: attributes,?_⟩
      rw [List.flatMap_cons,List.append_assoc,skipAttributes,reads]
      exact congrArg (a.written ++ ·) split

namespace Opening
variable (tag : Opening)

theorem exists_finish : ∃ c others, tag.finish = tag.blanks ++ c :: others ∧ (c = '/' ∨ c = '>') := by
  unfold finish
  cases tag.closed
  · exact ⟨'>',[],rfl,.inr rfl⟩
  · exact ⟨'/',['>'],rfl,.inl rfl⟩

/-- There is no attribute where a tag ends. -/
theorem skipAttribute?_finish (rest : List Char) : skipAttribute? (tag.finish ++ rest) = none := by
  obtain ⟨c,others,finish_eq,ends⟩ := tag.exists_finish
  have solid : isBlank c = false := by rcases ends with rfl | rfl <;> decide
  have unnamed : (!isBlank c && c != '=' && c != '>' && c != '/') = false := by
    rcases ends with rfl | rfl <;> decide
  simp only [skipAttribute?,finish_eq,List.append_assoc,List.cons_append,skip_blanks tag.blank solid]
  rw [List.dropWhile_cons_of_neg (by simp [unnamed])]
  simp

/-- What follows a name in a tag begins with a blank or with the end of the tag. -/
theorem halts_behind {accepts : Char → Bool} (refused : ∀ c, isBlank c = true → accepts c = false)
    (slash : accepts '/' = false) (bracket : accepts '>' = false) (attributes : List Attribute)
    (rest : List Char) : Halts accepts (attributes.flatMap Attribute.written ++ (tag.finish ++ rest)) := by
  cases attributes with
  | nil =>
    obtain ⟨c,others,finish_eq,ends⟩ := tag.exists_finish
    rw [List.flatMap_nil,List.nil_append,finish_eq,List.append_assoc]
    exact halts_blanks tag.blank refused (by rcases ends with rfl | rfl <;> assumption)
  | cons a attributes =>
    obtain ⟨b,blanks,apart_eq⟩ := List.exists_cons_of_ne_nil a.separate.some
    rw [List.flatMap_cons,Attribute.written,apart_eq]
    exact .cons (refused b (a.separate.each b (apart_eq ▸ List.mem_cons_self))) _

/-- A tag is read up to its end, whatever follows it. -/
theorem opening?_written (rest : List Char) : opening? (tag.written ++ rest) = some ((),rest) := by
  obtain ⟨n,more,name_eq⟩ := List.exists_cons_of_ne_nil tag.named.some
  have begins : (n = '?' ∨ n = '!') = False := by
    simpa [name_eq] using tag.begins
  have named : (tag.name ++ (tag.attributes.flatMap Attribute.written ++ (tag.finish ++ rest))).dropWhile
      (fun c => !isBlank c && c != '>' && c != '/') = _ :=
    dropWhile_run (List.all_eq_true.mpr tag.named.each)
      (tag.halts_behind (fun _ => isTagged_of_isBlank) (by decide) (by decide) tag.attributes rest)
  have skipped : skipAttributes ((tag.attributes.flatMap Attribute.written ++ (tag.finish ++ rest)).length + 1)
      (tag.attributes.flatMap Attribute.written ++ (tag.finish ++ rest)) = _ :=
    skipAttributes_written (tag.skipAttribute?_finish rest) (by rw [List.length_append]; omega)
  have finished : (after? ['/'] ((tag.finish ++ rest).dropWhile isBlank)).getD
      ((tag.finish ++ rest).dropWhile isBlank) = '>' :: rest := by
    rw [finish,List.append_assoc]
    cases tag.closed
    · exact congrArg (fun text => (after? ['/'] text).getD text) (skip_blanks tag.blank (by decide))
    · exact congrArg (fun text => (after? ['/'] text).getD text) (skip_blanks tag.blank (by decide))
  have split : tag.written ++ rest = ['<'] ++
      (tag.name ++ (tag.attributes.flatMap Attribute.written ++ (tag.finish ++ rest))) := by
    simp [written,front]
  rw [split,opening?,after?_append]
  simp only [Option.bind_eq_bind,Option.bind_some,named,skipped,finished]
  rw [if_neg (by simp [name_eq,begins]),if_neg (by simpa using tag.named.some),
    show '>' :: rest = ['>'] ++ rest from rfl,after?_append,Option.bind_some]

end Opening

theorem exists_of_opening? {value : Unit} (reads : opening? text = some (value,rest)) :
    ∃ tag : Opening, text = tag.written ++ rest := by
  obtain ⟨text₁,begins,reads⟩ := Option.bind_eq_some_iff.mp reads
  dsimp only at reads
  split at reads
  · exact nomatch reads
  next starts =>
  obtain ⟨name,split,named,-⟩ := exists_run isTagged text₁
  split at reads
  · exact nomatch reads
  next longer =>
  obtain ⟨text₂,ends,same⟩ := Option.bind_eq_some_iff.mp reads
  obtain ⟨-,rfl⟩ := Prod.mk.inj (Option.some.inj same)
  obtain ⟨attributes,split₁⟩ := exists_of_skipAttributes ((text₁.dropWhile isTagged).length + 1)
    (text₁.dropWhile isTagged)
  generalize tail_eq : skipAttributes _ (text₁.dropWhile isTagged) = tail at split₁
  replace ends : after? ['>'] ((after? ['/'] (tail.dropWhile isBlank)).getD (tail.dropWhile isBlank)) =
    some text₂ := tail_eq ▸ ends
  obtain ⟨blanks,split₂,blank,-⟩ := exists_run isBlank tail
  obtain ⟨closed,split₃⟩ : ∃ closed : Bool, tail.dropWhile isBlank =
      (if closed then "/>".toList else ">".toList) ++ text₂ := by
    cases slash : after? ['/'] (tail.dropWhile isBlank) with
    | none =>
      rw [slash,Option.getD_none] at ends
      exact ⟨false,eq_append_of_after? ends⟩
    | some text₃ =>
      rw [slash,Option.getD_some] at ends
      exact ⟨true,by rw [eq_append_of_after? slash,eq_append_of_after? ends]; rfl⟩
  have some : name ≠ [] := by
    intro none
    rw [none,List.nil_append] at split
    exact longer (beq_iff_eq.mpr (congrArg List.length split.symm))
  have start : text₁.head? = name.head? := by
    obtain ⟨c,others,rfl⟩ := List.exists_cons_of_ne_nil some
    rw [split]
    rfl
  have begins₁ : name.head? ≠ Option.some '?' ∧ name.head? ≠ Option.some '!' := by
    simpa [start] using starts
  refine ⟨⟨name,attributes,blanks,closed,⟨some,List.all_eq_true.mp named⟩,begins₁,blank⟩,?_⟩
  rw [eq_append_of_after? begins,split,split₁,split₂,split₃]
  simp [Opening.written,Opening.front,Opening.finish]

/-- An opening tag is a text that is written as one. -/
theorem accepts_opening : Accepts opening? fun _ raw => ∃ tag : Opening, raw = tag.written where
  solid := by
    rintro - raw ⟨tag,rfl⟩
    exact List.cons_ne_nil _ _
  reads_iff := by
    intro text value rest
    constructor
    · intro reads
      obtain ⟨tag,split⟩ := exists_of_opening? reads
      exact ⟨_,⟨tag,rfl⟩,split⟩
    · rintro ⟨raw,⟨tag,rfl⟩,rfl⟩
      exact tag.opening?_written rest

namespace Opening
variable (tag : Opening)

/-- What stands in a tag before the blanks at its end ends in a character of a name or in a quote. -/
theorem exists_front_eq : ∃ others c, tag.front = others ++ [c] ∧ isBlank c = false ∧ c ≠ '/' := by
  rcases List.eq_nil_or_concat tag.attributes with none | ⟨attributes,a,attributes_eq⟩
  · obtain ⟨others,c,name_eq⟩ := (List.eq_nil_or_concat tag.name).resolve_left tag.named.some
    have named := tag.named.each c (by simp [name_eq])
    refine ⟨'<' :: others,c,by simp [front,none,name_eq],?_,?_⟩
    · rw [← Bool.not_eq_true]
      intro blank
      exact nomatch named.symm.trans (isTagged_of_isBlank blank)
    · rintro rfl
      exact absurd named (by decide)
  · refine ⟨'<' :: (tag.name ++ attributes.flatMap Attribute.written ++ (a.apart ++ (a.name ++ (a.before ++
      '=' :: (a.after ++ a.quote :: a.value))))),a.quote,?_,isBlank_quote a.quotes,?_⟩
    · simp [front,attributes_eq,Attribute.written,Attribute.raw]
    · rcases a.quotes with same | same <;> simp [same]

theorem trimEnd_front {blanks : List Char} (blank : blanks.all isBlank = true) :
    trimEnd (tag.front ++ blanks) = tag.front := by
  obtain ⟨others,c,front_eq,solid,-⟩ := tag.exists_front_eq
  rw [trimEnd,front_eq,List.reverse_append,List.reverse_append,List.reverse_singleton,List.singleton_append,
    skip_blanks (by simpa using blank) solid]
  simp

theorem isClosed_written : isClosed tag.written = tag.closed := by
  obtain ⟨c,others,reversed,other⟩ : ∃ c others, (tag.front ++ tag.blanks).reverse = c :: others ∧ c ≠ '/' := by
    obtain ⟨others,c,front_eq,-,other⟩ := tag.exists_front_eq
    rcases List.eq_nil_or_concat tag.blanks with none | ⟨blanks,b,blanks_eq⟩
    · exact ⟨c,others.reverse,by simp [none,front_eq],other⟩
    · refine ⟨b,(tag.front ++ blanks).reverse,by simp [blanks_eq],?_⟩
      rintro rfl
      exact absurd (List.all_eq_true.mp tag.blank '/' (by simp [blanks_eq])) (by decide)
  have written_eq : tag.written = (tag.front ++ tag.blanks) ++ if tag.closed then "/>".toList else ">".toList :=
    (List.append_assoc ..).symm
  rw [isClosed,endsWith,written_eq,List.reverse_append,reversed]
  cases tag.closed
  · simp [startsWith,after?,Ne.symm other]
  · rfl

end Opening

/-! Scanning a tag for declarations. -/

/-- The prefix at the start of a text behind a colon, and what follows it. -/
def prefixed (text : List Char) : List Char × List Char :=
  match text with
  | ':' :: more =>
    if (more.takeWhile isLabelled).isEmpty then ([],text)
    else (more.takeWhile isLabelled,more.drop (more.takeWhile isLabelled).length)
  | other => ([],other)

theorem declaration?_eq (text : List Char) : declaration? text =
    (after? "xmlns".toList text).bind fun rest =>
    (after? ['='] ((prefixed rest).2.dropWhile isBlank)).bind fun equals =>
    (quotedLexeme? (equals.dropWhile isBlank)).bind fun (quoted,rest') =>
    some (((prefixed rest).1,quoted.tail.dropLast),rest') := by
  unfold declaration? prefixed
  cases after? "xmlns".toList text <;> rfl

theorem exists_prefixed (text : List Char) : ∃ skipped, text = skipped ++ (prefixed text).2 := by
  unfold prefixed
  split
  · next more =>
    split
    · exact ⟨[],rfl⟩
    · exact ⟨':' :: more.take (more.takeWhile isLabelled).length,by simp⟩
  · exact ⟨[],rfl⟩

variable {blanks : List Char}

theorem prefixed_default (blank : blanks.all isBlank = true) (rest : List Char) :
    prefixed (blanks ++ '=' :: rest) = ([],blanks ++ '=' :: rest) := by
  have uncoloned : Halts (· == ':') (blanks ++ '=' :: rest) :=
    halts_blanks blank (fun _ => eq_false_of_isBlank (· == ':') (by decide)) (by decide)
  unfold prefixed
  split
  · next eq =>
    rw [eq] at uncoloned
    exact absurd (uncoloned ':' rfl) (by decide)
  · rfl

theorem prefixed_append {label : List Char} (some : label ≠ []) (each : label.all isLabelled = true)
    (blank : blanks.all isBlank = true) (rest : List Char) :
    prefixed (':' :: (label ++ (blanks ++ '=' :: rest))) = (label,blanks ++ '=' :: rest) := by
  have run : (label ++ (blanks ++ '=' :: rest)).takeWhile isLabelled = label :=
    takeWhile_run each (halts_blanks blank (fun _ => isLabelled_of_isBlank) (by decide))
  have some : ¬ label.isEmpty = true := by simpa using some
  simp only [prefixed,run,if_neg some,List.drop_left]

/-- The text of a declaration is read as one. -/
theorem declaration?_raw {a : Attribute} {label : List Char} (labelled : a.label? = some label)
    (rest : List Char) : declaration? (a.raw ++ rest) = some ((label,a.value),rest) := by
  generalize tail_eq : a.before ++ '=' :: (a.after ++ a.quote :: (a.value ++ a.quote :: rest)) = tail
  obtain ⟨named,split,label_eq⟩ : ∃ named, a.raw ++ rest = "xmlns".toList ++ named ∧
      prefixed named = (label,tail) := by
    unfold Attribute.label? at labelled
    split at labelled
    · next begins =>
      obtain rfl := Option.some.inj labelled
      refine ⟨tail,?_,tail_eq ▸ prefixed_default a.blank_before _⟩
      simp [Attribute.raw,eq_append_of_after? begins,← tail_eq]
    · next label' begins =>
      obtain ⟨good,same⟩ := Option.ite_none_right_eq_some.mp labelled
      obtain rfl := Option.some.inj same
      obtain ⟨some,each⟩ := Bool.and_eq_true_iff.mp good
      refine ⟨':' :: (label' ++ tail),?_,tail_eq ▸ prefixed_append (by simpa using some) each a.blank_before _⟩
      simp [Attribute.raw,eq_append_of_after? begins,← tail_eq]
    · exact nomatch labelled
  have spaced : tail.dropWhile isBlank = '=' :: _ := tail_eq ▸ skip_blanks a.blank_before (by decide)
  have equals : ∀ text, after? ['='] ('=' :: text) = some text := after?_append ['=']
  have quoted : (a.after ++ a.quote :: (a.value ++ a.quote :: rest)).dropWhile isBlank = _ :=
    skip_blanks a.blank_after (isBlank_quote a.quotes)
  rw [declaration?_eq,split,after?_append,Option.bind_some,label_eq,spaced,equals,Option.bind_some,quoted,
    quotedLexeme?_append a.quotes a.closed]
  simp

theorem of_declaration? {value : List Char × List Char} (reads : declaration? text = some (value,rest)) :
    ∃ others, text = "xmlns".toList ++ others ++ rest := by
  rw [declaration?_eq] at reads
  obtain ⟨named,begins,reads⟩ := Option.bind_eq_some_iff.mp reads
  obtain ⟨text₂,equals,reads⟩ := Option.bind_eq_some_iff.mp reads
  obtain ⟨⟨quoted,text₃⟩,lexeme,reads⟩ := Option.bind_eq_some_iff.mp reads
  obtain ⟨-,rfl⟩ := Prod.mk.inj (Option.some.inj reads)
  obtain ⟨skipped,split⟩ := exists_prefixed named
  obtain ⟨before,split₁,-⟩ := exists_run isBlank (prefixed named).2
  obtain ⟨after,split₂,-⟩ := exists_run isBlank text₂
  obtain ⟨quote,value,-,-,-,split₃⟩ := of_quotedLexeme? lexeme
  refine ⟨skipped ++ (before ++ '=' :: (after ++ quote :: (value ++ [quote]))),?_⟩
  rw [eq_append_of_after? begins,split,split₁,eq_append_of_after? equals,split₂,split₃]
  simp

theorem proper_declaration : Proper declaration? := by
  intro text value rest reads
  obtain ⟨others,split⟩ := of_declaration? reads
  exact ⟨_,by simp,split⟩

/-- The first character of the word for declarations is nowhere else in it. -/
theorem silent_of_absent {piece : List Char} (absent : 'x' ∉ piece) (some : piece ≠ []) (rest : List Char) :
    declaration? (piece ++ rest) = none := by
  rw [Option.eq_none_iff_forall_not_mem]
  rintro ⟨value,rest'⟩ reads
  obtain ⟨others,split⟩ := of_declaration? reads
  obtain ⟨c,more,rfl⟩ := List.exists_cons_of_ne_nil some
  obtain ⟨rfl,-⟩ := List.cons.inj (split : c :: (more ++ rest) = 'x' :: _)
  exact absent List.mem_cons_self

/-- A piece without the word for declarations, before something that cannot carry the word on. -/
theorem silent_of_unsaid {piece : List Char} (unsaid : ¬ "xmlns".toList <:+: piece)
    (halts : Halts (fun c => "xmlns".toList.contains c) rest) : declaration? (piece ++ rest) = none := by
  rw [Option.eq_none_iff_forall_not_mem]
  rintro ⟨value,rest'⟩ reads
  obtain ⟨others,split⟩ := of_declaration? reads
  rw [List.append_assoc] at split
  rcases List.append_eq_append_iff.mp split with ⟨front,word_eq,rest_eq⟩ | ⟨front,piece_eq,-⟩
  · cases front with
    | nil => exact unsaid ((word_eq.trans (List.append_nil _)) ▸ List.infix_rfl)
    | cons c front =>
      have member : c ∈ "xmlns".toList := by rw [word_eq]; simp
      have refused := halts c (rest_eq ▸ rfl)
      exact nomatch refused.symm.trans (List.contains_iff_mem.mpr member)
  · exact unsaid ⟨[],front,piece_eq.symm⟩

/-- A finding as a declaration. -/
def ofFound (f : Found (List Char × List Char)) : Declaration :=
  ⟨f.value.1,f.value.2,f.raw⟩

theorem not_contains_of_isBlank {c : Char} (blank : isBlank c = true) : "xmlns".toList.contains c = false :=
  eq_false_of_isBlank (fun c => "xmlns".toList.contains c) (by decide) blank

theorem absent_of_blank {blanks : List Char} (blank : ∀ c ∈ blanks, isBlank c = true) : 'x' ∉ blanks :=
  fun member => absurd (blank 'x' member) (by decide)

/-- What is found in a tag behind its name is what its attributes declare. -/
theorem Opening.exists_finds (tag : Opening) {attributes : List Attribute}
    (plain : ∀ a ∈ attributes, a.label? = none → ¬ "xmlns".toList <:+: a.raw) (start : Nat) :
    ∃ found, Finds declaration? start (attributes.flatMap Attribute.written ++ tag.finish) found ∧
      found.map ofFound = attributes.filterMap Attribute.declaration? := by
  have passed {piece : List Char} (absent : 'x' ∉ piece) (rest others : List Char) (inside : others <:+ piece)
      (some : others ≠ []) : declaration? (others ++ rest) = none :=
    silent_of_absent (fun member => absent (inside.subset member)) some rest
  induction attributes generalizing start with
  | nil =>
    have absent : 'x' ∉ tag.finish := by
      rw [finish,List.mem_append,not_or]
      exact ⟨absent_of_blank (List.all_eq_true.mp tag.blank),by cases tag.closed <;> decide⟩
    refine ⟨[],?_,rfl⟩
    rw [List.flatMap_nil,List.nil_append,← List.append_nil tag.finish]
    exact .skip (passed absent []) (.nil _)
  | cons a attributes ih =>
    obtain ⟨found,finds,found_eq⟩ := ih (fun b member => plain b (List.mem_cons_of_mem a member))
      (start + a.apart.length + a.raw.length)
    have apart := passed (absent_of_blank a.separate.each)
      (a.raw ++ (attributes.flatMap Attribute.written ++ tag.finish))
    rw [List.flatMap_cons,Attribute.written,List.append_assoc,List.append_assoc]
    cases labelled : a.label? with
    | some label =>
      have some : a.raw ≠ [] := by simp [Attribute.raw,a.named.some]
      refine ⟨⟨(label,a.value),_,a.raw⟩ :: found,.skip apart (.read some (declaration?_raw labelled _) finds),?_⟩
      simp [found_eq,ofFound,Attribute.declaration?,labelled]
    | none =>
      have unsaid := plain a List.mem_cons_self labelled
      have halts := tag.halts_behind (fun _ => not_contains_of_isBlank) (by decide) (by decide) attributes []
      rw [List.append_nil] at halts
      refine ⟨found,.skip apart (.skip (fun others inside _ => ?_) finds),?_⟩
      · exact silent_of_unsaid (fun said => unsaid (said.trans inside.isInfix)) halts
      · simp [found_eq,Attribute.declaration?,labelled]

/-- A declaration takes the place of one of the same prefix. -/
def recorded (found : List Declaration) (d : Declaration) : List Declaration :=
  if found.any (·.label == d.label) then found.map fun e => if e.label == d.label then d else e
  else found ++ [d]

/-- What the scanner reads in a tag is what the tag declares, recorded prefix by prefix. -/
theorem Opening.declarations_written {tag : Opening} (plain : tag.Plain) :
    declarations tag.written = tag.declared.foldl recorded [] := by
  have unsaid : ¬ "xmlns".toList <:+: '<' :: tag.name := by
    rw [List.infix_cons_iff,not_or]
    exact ⟨fun ⟨_,split⟩ => absurd (List.cons.inj split).1 (by decide),plain.name⟩
  have halts := tag.halts_behind (fun _ => not_contains_of_isBlank) (by decide) (by decide) tag.attributes []
  rw [List.append_nil] at halts
  obtain ⟨found,finds,found_eq⟩ := tag.exists_finds plain.attributes (0 + ('<' :: tag.name).length)
  have whole : Finds declaration? 0 tag.written found := by
    have split : tag.written = ('<' :: tag.name) ++ (tag.attributes.flatMap Attribute.written ++ tag.finish) := by
      simp [written,front]
    rw [split]
    refine .skip (fun others inside _ => ?_) finds
    exact silent_of_unsaid (fun said => unsaid (said.trans inside.isInfix)) halts
  have all_eq : all declaration? tag.written = found := (finds_all proper_declaration tag.written).unique whole
  rw [declarations,all_eq]
  exact congrArg (List.foldl recorded []) found_eq

/-! What is recorded: one declaration for each prefix, the last. -/

section
variable {found more : List Declaration} {d : Declaration}

theorem find?_replaced (label : List Char) :
    (found.map fun e => if e.label == d.label then d else e).find? (·.label == label) =
      if d.label == label && found.any (·.label == d.label) then some d
      else found.find? (·.label == label) := by
  induction found with
  | nil => simp
  | cons e found ih =>
    by_cases same : e.label = d.label
    · by_cases here : d.label = label
      · simp [same,here]
      · simpa [same,here] using ih
    · by_cases here : d.label = label
      · subst here
        simpa [same] using ih
      · rw [beq_eq_false_iff_ne.mpr here,Bool.false_and,if_neg Bool.false_ne_true] at ih ⊢
        rw [List.map_cons,if_neg (by simpa using same),List.find?_cons,List.find?_cons,ih]

theorem find?_recorded (label : List Char) : (recorded found d).find? (·.label == label) =
    if d.label == label then some d else found.find? (·.label == label) := by
  unfold recorded
  split
  · next present => rw [find?_replaced,present,Bool.and_true]
  · next absent =>
    rw [List.find?_append]
    by_cases same : d.label = label
    · have missing : found.find? (·.label == label) = none := by
        rw [← same]
        simpa using absent
      simp [missing,same]
    · simp [same]

theorem nodup_recorded (distinct : (found.map (·.label)).Nodup) : ((recorded found d).map (·.label)).Nodup := by
  unfold recorded
  split
  · have kept : (found.map fun e => if e.label == d.label then d else e).map (·.label) = found.map (·.label) := by
      rw [List.map_map]
      refine List.map_congr_left fun e _ => ?_
      by_cases same : e.label = d.label <;> simp [same]
    rwa [kept]
  · next absent =>
    rw [List.map_append,List.map_singleton,List.nodup_append]
    exact ⟨distinct,by simp,by simpa using absent⟩

theorem recorded_subset : recorded found d ⊆ d :: found := by
  unfold recorded
  split
  · intro e member
    obtain ⟨e',inside,rfl⟩ := List.mem_map.mp member
    split
    · exact List.mem_cons_self
    · exact List.mem_cons_of_mem d inside
  · exact List.append_subset.mpr ⟨List.subset_cons_self d found,by simp⟩

theorem nodup_foldl_recorded (more : List Declaration) (distinct : (found.map (·.label)).Nodup) :
    ((more.foldl recorded found).map (·.label)).Nodup := by
  induction more generalizing found with
  | nil => exact distinct
  | cons d more ih => exact ih (nodup_recorded distinct)

theorem foldl_recorded_subset (more found : List Declaration) : more.foldl recorded found ⊆ found ++ more := by
  induction more generalizing found with
  | nil => simp
  | cons d more ih =>
    intro e member
    rcases List.mem_append.mp (ih (recorded found d) member) with here | later
    · rcases List.mem_cons.mp (recorded_subset here) with rfl | here
      · simp
      · simp [here]
    · simp [later]

theorem find?_foldl_recorded (more found : List Declaration) (label : List Char) :
    (more.foldl recorded found).find? (·.label == label) =
      (more.reverse.find? (·.label == label)).or (found.find? (·.label == label)) := by
  induction more generalizing found with
  | nil => simp
  | cons d more ih =>
    rw [List.foldl_cons,ih,find?_recorded,List.reverse_cons,List.find?_append,Option.or_assoc]
    by_cases same : d.label == label <;> simp [same]

end

/-- Where no prefix is declared twice, the last declaration of a prefix is the first. -/
theorem find?_reverse {ds : List Declaration} (distinct : (ds.map (·.label)).Nodup) (label : List Char) :
    ds.reverse.find? (·.label == label) = ds.find? (·.label == label) := by
  induction ds with
  | nil => rfl
  | cons d ds ih =>
    obtain ⟨fresh,distinct⟩ := List.nodup_cons.mp distinct
    rw [List.reverse_cons,List.find?_append,ih distinct]
    by_cases same : d.label = label
    · have missing : ds.find? (·.label == label) = none := by
        rw [← same]
        simpa using fresh
      simp [missing,same]
    · simp [same]

/-- The declarations that are read in a tag have different prefixes. -/
theorem nodup_declarations (tag : List Char) : ((declarations tag).map (·.label)).Nodup :=
  nodup_foldl_recorded _ List.nodup_nil

namespace Opening
variable {tag : Opening}

theorem declarations_subset (plain : tag.Plain) : declarations tag.written ⊆ tag.declared := by
  rw [declarations_written plain]
  exact foldl_recorded_subset tag.declared []

/-- What is read for a prefix is the last declaration of it. -/
theorem find?_declarations (plain : tag.Plain) (label : List Char) :
    (declarations tag.written).find? (·.label == label) = tag.declared.reverse.find? (·.label == label) := by
  rw [declarations_written plain,find?_foldl_recorded,List.find?_nil,Option.or_none]

theorem any_declarations (plain : tag.Plain) (label : List Char) :
    (declarations tag.written).any (·.label == label) = tag.declared.any (·.label == label) := by
  rw [← List.isSome_find?,find?_declarations plain,List.isSome_find?,List.any_reverse]

end Opening

/-! Adding declarations to a tag. -/

/-- Declarations that stand in a tag can be written behind single spaces. -/
theorem exists_attributes {ds : List Declaration} (each : ∀ d ∈ ds, ∃ a : Attribute, a.declaration? = some d) :
    ∃ extra : List Attribute, extra.flatMap Attribute.written = ds.flatMap (fun d => ' ' :: d.raw) ∧
      extra.filterMap Attribute.declaration? = ds ∧ ∀ a ∈ extra, a.label?.isSome := by
  induction ds with
  | nil => exact ⟨[],rfl,rfl,by simp⟩
  | cons d ds ih =>
    obtain ⟨a,declares⟩ := each d List.mem_cons_self
    obtain ⟨extra,written_eq,declared_eq,labelled⟩ := ih fun e member => each e (List.mem_cons_of_mem d member)
    obtain ⟨label,label_eq,rfl⟩ := Option.map_eq_some_iff.mp declares
    have declares' : a.spaced.declaration? = some ⟨label,a.value,a.raw⟩ := declares
    refine ⟨a.spaced :: extra,?_,?_,List.forall_mem_cons.mpr ⟨?_,labelled⟩⟩
    · rw [List.flatMap_cons,List.flatMap_cons,written_eq]
      rfl
    · rw [List.filterMap_cons_some declares',declared_eq]
    · exact Option.isSome_of_eq_some (show a.spaced.label? = some label from label_eq)

namespace Opening
variable {tag : Opening}

theorem exists_of_declared {d : Declaration} (member : d ∈ tag.declared) :
    ∃ a : Attribute, a.declaration? = some d := by
  obtain ⟨a,-,declares⟩ := List.mem_filterMap.mp member
  exact ⟨a,declares⟩

/-- A tag with declarations added at its end is a tag. -/
theorem exists_extended (unclosed : tag.closed = false) (plain : tag.Plain) {extra : List Declaration}
    (each : ∀ d ∈ extra, ∃ a : Attribute, a.declaration? = some d) :
    ∃ tag' : Opening, tag'.written = extended tag.written extra ∧ tag'.closed = false ∧ tag'.Plain ∧
      tag'.declared = tag.declared ++ extra := by
  obtain ⟨attributes,written_eq,declared_eq,labelled⟩ := exists_attributes each
  by_cases none : extra.isEmpty = true
  · exact ⟨tag,(if_pos none).symm,unclosed,plain,by simp [List.isEmpty_iff.mp none]⟩
  · refine ⟨{ tag with attributes := tag.attributes ++ attributes, blanks := [], blank := rfl },?_,unclosed,
      ⟨plain.name,?_⟩,?_⟩
    · have whole : tag.written.dropLast = tag.front ++ tag.blanks := by
        simp [written,finish,unclosed,← List.append_assoc]
      rw [extended,if_neg none,whole,tag.trimEnd_front tag.blank]
      simp [written,front,finish,unclosed,written_eq]
    · intro a member unlabelled
      rcases List.mem_append.mp member with here | new
      · exact plain.attributes a here unlabelled
      · exact nomatch (labelled a new).symm.trans (congrArg Option.isSome unlabelled)
    · exact (List.filterMap_append ..).trans (congrArg (tag.declared ++ ·) declared_eq)

/-- The declarations of another tag that a tag lacks. -/
def missing (tag other : Opening) : List Declaration :=
  (declarations other.written).filter fun d => !(declarations tag.written).any (·.label == d.label)

variable {other tag' : Opening}

theorem find?_missing (tag other : Opening) (label : List Char) :
    (tag.missing other).find? (·.label == label) =
      if (declarations tag.written).any (·.label == label) then none
      else (declarations other.written).find? (·.label == label) := by
  split
  · next present =>
    refine List.find?_eq_none.mpr fun d member same => ?_
    have absent := (List.mem_filter.mp member).2
    rw [beq_iff_eq.mp same,present] at absent
    exact nomatch absent
  · next absent =>
    rw [missing,List.find?_filter]
    congr 1
    funext d
    by_cases same : d.label = label
    · simp only [same,absent,Bool.not_false,beq_self_eq_true,and_self,decide_true]
    · simp [same]

/-- A tag with what it lacks of another one declares what either declares, its own declarations first. -/
theorem space?_of_missing (plain : tag.Plain) (otherPlain : other.Plain)
    (declared_eq : tag'.declared = tag.declared ++ tag.missing other) (label : List Char) :
    tag'.space? label = (tag.space? label).or (other.space? label) := by
  have distinct : ((tag.missing other).map (·.label)).Nodup :=
    (nodup_declarations other.written).sublist (List.filter_sublist.map _)
  simp only [space?]
  rw [declared_eq,List.reverse_append,List.find?_append,find?_reverse distinct,find?_missing,
    ← List.isSome_find?,← find?_declarations plain,← find?_declarations otherPlain]
  cases (declarations tag.written).find? (·.label == label) <;> simp

theorem nodup_of_missing (plain : tag.Plain)
    (declared_eq : tag'.declared = tag.declared ++ tag.missing other)
    (distinct : (tag.declared.map (·.label)).Nodup) : (tag'.declared.map (·.label)).Nodup := by
  rw [declared_eq,List.map_append,List.nodup_append]
  refine ⟨distinct,(nodup_declarations other.written).sublist (List.filter_sublist.map _),?_⟩
  rintro label here _ there rfl
  obtain ⟨d,declared,rfl⟩ := List.mem_map.mp here
  obtain ⟨e,lacked,same⟩ := List.mem_map.mp there
  have absent := (List.mem_filter.mp lacked).2
  rw [any_declarations plain,same] at absent
  rw [Bool.not_eq_true',List.any_eq_false] at absent
  exact absent d declared (beq_self_eq_true d.label)

/-- Tags that bind no prefix to different namespaces bind what either binds, whichever comes first. -/
theorem space?_comm {former new : Opening} (formerPlain : former.Plain) (newPlain : new.Plain)
    (agree : ¬(declarations new.written).any (fun d => (declarations former.written).any fun e =>
      e.label == d.label && e.space != d.space) = true) (label : List Char) :
    (former.space? label).or (new.space? label) = (new.space? label).or (former.space? label) := by
  rw [space?,space?,← find?_declarations formerPlain,← find?_declarations newPlain]
  cases formerly : (declarations former.written).find? (·.label == label) with
  | none => simp
  | some e =>
    cases newly : (declarations new.written).find? (·.label == label) with
    | none => simp
    | some d =>
      have e_label : e.label = label := by simpa using List.find?_some formerly
      have d_label : d.label = label := by simpa using List.find?_some newly
      have same : e.space = d.space := by
        by_contra other
        exact agree (List.any_eq_true.mpr ⟨d,List.mem_of_find?_eq_some newly,
          List.any_eq_true.mpr ⟨e,List.mem_of_find?_eq_some formerly,by simp [e_label,d_label,other]⟩⟩)
      simp [same]

end Opening

/-- A written document gets its opening tag exchanged and nothing else. The tag it gets binds every prefix that
the written document's tag binds to the same namespace, and every other prefix of the former tag as that does. This
is what is read in the text of the tag, and no prefix is declared twice in it if none was before. -/
theorem restore_declares {former new : Opening} (formerOpen : former.closed = false) (newOpen : new.closed = false)
    (formerPlain : former.Plain) (newPlain : new.Plain) (rest : List Char) :
    ∃ tag : Opening, restore former.written (new.written ++ rest) = tag.written ++ rest ∧
      tag.closed = false ∧ tag.Plain ∧
      (∀ label, tag.space? label = (new.space? label).or (former.space? label)) ∧
      (∀ label, ((declarations tag.written).find? (·.label == label)).map (·.space) = tag.space? label) ∧
      ((former.declared.map (·.label)).Nodup → (new.declared.map (·.label)).Nodup →
        (tag.declared.map (·.label)).Nodup) := by
  have restored : restore former.written (new.written ++ rest) = merged former.written new.written ++ rest := by
    rw [restore,new.opening?_written]
    dsimp only
    rw [List.length_append,Nat.add_sub_cancel,List.take_left,new.isClosed_written,newOpen,
      if_neg Bool.false_ne_true]
  have former_each : ∀ d ∈ new.missing former, ∃ a : Attribute, a.declaration? = some d := fun d member =>
    Opening.exists_of_declared (Opening.declarations_subset formerPlain (List.mem_of_mem_filter member))
  have new_each : ∀ d ∈ former.missing new, ∃ a : Attribute, a.declaration? = some d := fun d member =>
    Opening.exists_of_declared (Opening.declarations_subset newPlain (List.mem_of_mem_filter member))
  by_cases conflict : (declarations new.written).any (fun d => (declarations former.written).any fun e =>
      e.label == d.label && e.space != d.space) = true
  · -- the new tag is kept
    obtain ⟨tag,written_eq,unclosed,plain,declared_eq⟩ := Opening.exists_extended newOpen newPlain former_each
    refine ⟨tag,?_,unclosed,plain,Opening.space?_of_missing newPlain formerPlain declared_eq,fun label => ?_,
      fun _ distinct => Opening.nodup_of_missing newPlain declared_eq distinct⟩
    · rw [restored,written_eq,merged,if_pos conflict]
      rfl
    · rw [Opening.find?_declarations plain,Opening.space?]
  · -- the former tag is kept, and where both bind a prefix they bind it to the same namespace
    obtain ⟨tag,written_eq,unclosed,plain,declared_eq⟩ := Opening.exists_extended formerOpen formerPlain new_each
    refine ⟨tag,?_,unclosed,plain,fun label => ?_,fun label => ?_,
      fun distinct _ => Opening.nodup_of_missing formerPlain declared_eq distinct⟩
    · rw [restored,written_eq,merged,if_neg conflict]
      rfl
    · rw [Opening.space?_of_missing formerPlain newPlain declared_eq]
      exact Opening.space?_comm formerPlain newPlain conflict label
    · rw [Opening.find?_declarations plain,Opening.space?]

/-- A prefix that was bound anew keeps its new namespace, and one that is not used any more its former one. -/
theorem restore_declares_rebound : ∃ tag : Opening,
    restore "<w:p xmlns:w=\"urn:a\" xmlns:v=\"urn:v\">".toList ("<w:p xmlns:w=\"urn:b\">".toList ++ "</w:p>".toList) =
      tag.written ++ "</w:p>".toList ∧
    tag.space? "w".toList = some "urn:b".toList ∧ tag.space? "v".toList = some "urn:v".toList := by
  let declare (name value : List Char) (named : IsRun isNamed name) (closed : '"' ∉ value) : Attribute :=
    ⟨[' '],name,[],[],'"',value,⟨by decide,List.all_eq_true.mp rfl⟩,named,rfl,rfl,.inl rfl,closed⟩
  let tag (attributes : List Attribute) : Opening :=
    ⟨"w:p".toList,attributes,[],false,⟨by decide,List.all_eq_true.mp rfl⟩,by decide,rfl⟩
  let w (value : List Char) := declare "xmlns:w".toList value ⟨by decide,List.all_eq_true.mp rfl⟩
  let v := declare "xmlns:v".toList "urn:v".toList ⟨by decide,List.all_eq_true.mp rfl⟩ (by decide)
  have formerOpen : (tag [w "urn:a".toList (by decide),v]).closed = false := rfl
  have newOpen : (tag [w "urn:b".toList (by decide)]).closed = false := rfl
  obtain ⟨kept,restored,-,-,spaces,-⟩ :=
    restore_declares formerOpen newOpen ⟨by decide,by decide⟩ ⟨by decide,by decide⟩ "</w:p>".toList
  exact ⟨kept,restored,spaces _,spaces _⟩

end MailMerge.Xml.RootTag
