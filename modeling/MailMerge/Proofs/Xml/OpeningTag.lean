import MailMerge.Proofs.Xml.Spelling

/-! Opening tags. The reader takes a tag exactly when the grammar below derives it, whatever stands
behind the tag. -/
namespace MailMerge.Xml
open Text

variable {entities : Entities}

/-- What follows the name in an opening tag: the attributes read before it, its text, all attributes
with it, and whether it closes the element. -/
inductive TagEnd (entities : Entities) :
    List (String × String) → List Char → List (String × String) → Bool → Prop
  | opens {before blanks} (spaces : blanks.all isSpace = true) :
      TagEnd entities before (blanks ++ ['>']) before false
  | closes {before blanks} (spaces : blanks.all isSpace = true) :
      TagEnd entities before (blanks ++ ['/','>']) before true
  | adds {before blanks name first second quote raw value rest after closed}
      (apart : blanks ≠ []) (spaces : blanks.all isSpace = true)
      (spelling : IsSpelling name.toList) (spacesFirst : first.all isSpace = true)
      (spacesSecond : second.all isSpace = true) (quotes : quote = '"' ∨ quote = '\'')
      (absent : quote ∉ raw)
      (given : attributeValue? (raw.length + 1 + 1000 * entities.length) entities raw = some value)
      (fresh : before.any (·.1 == name) = false)
      (more : TagEnd entities (before ++ [(name,String.ofList value)]) rest after closed) :
      TagEnd entities before
        (blanks ++ (name.toList ++ (first ++ '=' :: (second ++ quote :: (raw ++ quote :: rest)))))
        after closed

theorem isSpace_of_isNameStart {c : Char} (start : isNameStart c = true) : isSpace c = false := by
  cases space : isSpace c with
  | false => rfl
  | true =>
    have none := isNameChar_of_isSpace space
    rw [isNameChar_of_isNameStart start] at none
    exact absurd none (by decide)

theorem inSpelling_of_isSpace {c : Char} (space : isSpace c = true) : inSpelling c = false := by
  have colon : c ≠ ':' := by
    intro same
    rw [same] at space
    exact absurd space (by decide)
  simp [inSpelling,isNameChar_of_isSpace space,colon]

theorem halts_of_spaces {blanks rest : List Char} (spaces : blanks.all isSpace = true)
    (halts : Halts inSpelling rest) : Halts inSpelling (blanks ++ rest) := by
  cases blanks with
  | nil => exact halts
  | cons c blanks =>
    simp only [List.all_cons,Bool.and_eq_true] at spaces
    exact Halts.cons (inSpelling_of_isSpace spaces.1) _

theorem TagEnd.halts {before after : List (String × String)} {tag : List Char} {closed : Bool}
    (ended : TagEnd entities before tag after closed) (rest : List Char) :
    Halts inSpelling (tag ++ rest) := by
  cases ended with
  | opens spaces =>
    rw [List.append_assoc]
    exact halts_of_spaces spaces (Halts.cons (by decide) _)
  | closes spaces =>
    rw [List.append_assoc]
    exact halts_of_spaces spaces (Halts.cons (by decide) _)
  | @adds _ blanks _ _ _ _ _ _ _ _ _ apart spaces =>
    obtain ⟨c,blanks,rfl⟩ := List.exists_cons_of_ne_nil apart
    simp only [List.all_cons,Bool.and_eq_true] at spaces
    exact Halts.cons (inSpelling_of_isSpace spaces.1) _

theorem quotedText?_append {quote : Char} (quotes : quote = '"' ∨ quote = '\'') {raw : List Char}
    (absent : quote ∉ raw) (rest : List Char) :
    quotedText? (quote :: (raw ++ quote :: rest)) = some (raw,rest) := by
  rcases quotes with rfl | rfl <;> simp [quotedText?,cut?_append absent]

theorem of_quotedText? {text raw rest : List Char} (read : quotedText? text = some (raw,rest)) :
    ∃ quote, (quote = '"' ∨ quote = '\'') ∧ quote ∉ raw ∧ text = quote :: (raw ++ quote :: rest) := by
  cases text with
  | nil => simp [quotedText?] at read
  | cons quote text =>
    simp only [quotedText?] at read
    split at read
    · next quotes =>
      obtain ⟨rfl,absent⟩ := of_cut? read
      exact ⟨quote,by simpa using quotes,absent,rfl⟩
    · simp at read

/-- One attribute is read before the others. -/
theorem attributes?_next {fuel : Nat} {text : List Char} {before : List (String × String)}
    (unopened : ∀ rest, skipSpace text ≠ '>' :: rest)
    (unclosed : ∀ rest, skipSpace text ≠ '/' :: '>' :: rest) :
    attributes? (fuel + 1) entities text before =
      if (skipSpace text).length = text.length then none
      else (name? (skipSpace text)).bind fun (name,rest) =>
        (after? ['='] (skipSpace rest)).bind fun rest =>
        (quotedText? (skipSpace rest)).bind fun (raw,rest) =>
        (attributeValue? (raw.length + 1 + 1000 * entities.length) entities raw).bind fun value =>
        if before.any (·.1 == name) then none
        else attributes? fuel entities rest (before ++ [(name,String.ofList value)]) := by
  rw [attributes?]
  split
  · next eq => exact absurd eq (unopened _)
  · next eq => exact absurd eq (unclosed _)
  · simp only [beq_iff_eq]
    split
    · rfl
    · simp only [bind,Option.bind]

/-- The attributes of a tag are read as the grammar derives them. -/
theorem attributes?_append {before after : List (String × String)} {tag : List Char} {closed : Bool}
    (ended : TagEnd entities before tag after closed) {fuel : Nat} (enough : tag.length < fuel)
    (rest : List Char) :
    attributes? fuel entities (tag ++ rest) before = some (after,closed,rest) := by
  induction ended generalizing fuel with
  | opens spaces =>
    obtain ⟨fuel,rfl⟩ : ∃ more, fuel = more + 1 := ⟨fuel - 1,by omega⟩
    have skipped : ∀ text, skipSpace (_ ++ '>' :: text) = '>' :: text :=
      fun text => dropWhile_run spaces (Halts.cons (by decide) _)
    simp [attributes?,skipped]
  | closes spaces =>
    obtain ⟨fuel,rfl⟩ : ∃ more, fuel = more + 1 := ⟨fuel - 1,by omega⟩
    have skipped : ∀ text, skipSpace (_ ++ '/' :: text) = '/' :: text :=
      fun text => dropWhile_run spaces (Halts.cons (by decide) _)
    simp [attributes?,skipped]
  | @adds before blanks name first second quote raw value more after closed apart spaces
      spelling spacesFirst spacesSecond quotes absent given fresh derived ih =>
    obtain ⟨fuel,rfl⟩ : ∃ more, fuel = more + 1 := ⟨fuel - 1,by omega⟩
    obtain ⟨c,tail,named,start⟩ := spelling.exists_start
    have skipped : skipSpace (blanks ++ (name.toList ++ (first ++ '=' :: (second ++
        quote :: (raw ++ quote :: more)))) ++ rest) = name.toList ++ (first ++ '=' :: (second ++
        quote :: (raw ++ quote :: (more ++ rest)))) := by
      simp only [List.append_assoc,List.cons_append,named]
      exact dropWhile_run spaces (Halts.cons (isSpace_of_isNameStart start) _)
    have named? : name? (name.toList ++ (first ++ '=' :: (second ++ quote :: (raw ++
        quote :: (more ++ rest))))) = some (name,first ++ '=' :: (second ++ quote :: (raw ++
        quote :: (more ++ rest)))) := by
      rw [name?_append spelling (halts_of_spaces spacesFirst (Halts.cons (by decide) _)),
        String.ofList_toList]
    have equals : skipSpace (first ++ '=' :: (second ++ quote :: (raw ++ quote :: (more ++ rest)))) =
        '=' :: (second ++ quote :: (raw ++ quote :: (more ++ rest))) :=
      dropWhile_run spacesFirst (Halts.cons (by decide) _)
    have quoted : skipSpace (second ++ quote :: (raw ++ quote :: (more ++ rest))) =
        quote :: (raw ++ quote :: (more ++ rest)) := by
      refine dropWhile_run spacesSecond (Halts.cons ?_ _)
      rcases quotes with rfl | rfl <;> decide
    have shorter : (name.toList ++ (first ++ '=' :: (second ++ quote :: (raw ++
        quote :: (more ++ rest))))).length ≠ (blanks ++ (name.toList ++ (first ++ '=' :: (second ++
        quote :: (raw ++ quote :: more)))) ++ rest).length := by
      have some : 0 < blanks.length := List.length_pos_iff.mpr apart
      simp only [List.length_append,List.length_cons]
      omega
    have shortened : more.length < fuel := by
      simp only [List.length_append,List.length_cons] at enough
      omega
    have continued := ih shortened
    have unmarked : ∀ mark ∈ ['>','/'], ∀ text text', name.toList ++ text ≠ mark :: text' := by
      intro mark member text text' same
      rw [named] at same
      obtain rfl := (List.cons.inj same).1
      rcases List.mem_cons.mp member with rfl | member
      · exact absurd start (by decide)
      · exact absurd start (by rw [List.mem_singleton.mp member]; decide)
    rw [attributes?_next,skipped,if_neg shorter,named?]
    · simp only [Option.bind_some]
      rw [equals,show '=' :: (second ++ quote :: (raw ++ quote :: (more ++ rest))) =
        ['='] ++ (second ++ quote :: (raw ++ quote :: (more ++ rest))) from rfl,after?_append]
      simp only [Option.bind_some,quoted,quotedText?_append quotes absent,given,fresh,continued]
      rfl
    · rw [skipped]
      exact unmarked '>' (by simp) _
    · rw [skipped]
      exact fun text => unmarked '/' (by simp) _ _

/-- What is read as the attributes of a tag is derived by the grammar. -/
theorem of_attributes? {fuel : Nat} {text rest : List Char} {before after : List (String × String)}
    {closed : Bool} (read : attributes? fuel entities text before = some (after,closed,rest)) :
    ∃ tag, text = tag ++ rest ∧ TagEnd entities before tag after closed := by
  induction fuel generalizing text before with
  | zero => simp [attributes?] at read
  | succ fuel ih =>
    obtain ⟨blanks,split,spaces,_⟩ := exists_run isSpace text
    have split : text = blanks ++ skipSpace text := split
    by_cases unopened : ∀ rest, skipSpace text ≠ '>' :: rest
    · by_cases unclosed : ∀ rest, skipSpace text ≠ '/' :: '>' :: rest
      · rw [attributes?_next unopened unclosed] at read
        obtain ⟨shorter,read⟩ := Option.ite_none_left_eq_some.mp read
        obtain ⟨⟨name,tail⟩,named,read⟩ := Option.bind_eq_some_iff.mp read
        obtain ⟨value,equals,read⟩ := Option.bind_eq_some_iff.mp read
        obtain ⟨⟨raw,tail'⟩,quoted,read⟩ := Option.bind_eq_some_iff.mp read
        obtain ⟨chars,given,read⟩ := Option.bind_eq_some_iff.mp read
        obtain ⟨fresh,read⟩ := Option.ite_none_left_eq_some.mp read
        obtain ⟨tag,rfl,derived⟩ := ih read
        obtain ⟨nameSplit,spelling,_⟩ := of_name? named
        obtain ⟨first,firstSplit,spacesFirst,_⟩ := exists_run isSpace tail
        obtain ⟨second,secondSplit,spacesSecond,_⟩ := exists_run isSpace value
        obtain ⟨quote,quotes,absent,quotedSplit⟩ := of_quotedText? quoted
        have equals : skipSpace tail = '=' :: value := eq_append_of_after? equals
        refine ⟨blanks ++ (name.toList ++ (first ++ '=' :: (second ++
          quote :: (raw ++ quote :: tag)))),?_,?_⟩
        · rw [split,nameSplit,firstSplit]
          rw [show tail.dropWhile isSpace = skipSpace tail from rfl,equals,secondSplit,
            show value.dropWhile isSpace = skipSpace value from rfl,quotedSplit]
          simp
        · refine TagEnd.adds ?_ spaces spelling spacesFirst spacesSecond quotes absent given
            (by simpa only [Bool.not_eq_true] using fresh) derived
          intro nothing
          rw [nothing,List.nil_append] at split
          exact shorter (congrArg List.length split.symm)
      · simp only [not_forall,not_not] at unclosed
        obtain ⟨tail,eq⟩ := unclosed
        simp only [attributes?,eq,Option.some.injEq,Prod.mk.injEq] at read
        obtain ⟨rfl,rfl,rfl⟩ := read
        exact ⟨blanks ++ ['/','>'],by rw [split,eq]; simp,TagEnd.closes spaces⟩
    · simp only [not_forall,not_not] at unopened
      obtain ⟨tail,eq⟩ := unopened
      simp only [attributes?,eq,Option.some.injEq,Prod.mk.injEq] at read
      obtain ⟨rfl,rfl,rfl⟩ := read
      exact ⟨blanks ++ ['>'],by rw [split,eq]; simp,TagEnd.opens spaces⟩

/-- An opening tag: its name, its attributes and whether it closes its element. -/
structure Tag where
  name : String
  attributes : List (String × String)
  closed : Bool
  deriving DecidableEq, Repr

/-- Reads an opening tag at the start of a text in which no entities are known. -/
def tag? (text : List Char) : Option (Tag × List Char) :=
  match text with
  | '<' :: rest => do
    let (name,rest) ← name? rest
    let (attributes,closed,rest) ← attributes? (rest.length + 1) [] rest []
    some (⟨name,attributes,closed⟩,rest)
  | _ => none

/-- A text is an opening tag and nothing else. -/
def Tag.Written (tag : Tag) (text : List Char) : Prop :=
  ∃ rest, text = '<' :: (tag.name.toList ++ rest) ∧ IsSpelling tag.name.toList ∧
    TagEnd [] [] rest tag.attributes tag.closed

theorem tag?_iff {text rest : List Char} {tag : Tag} :
    tag? text = some (tag,rest) ↔ ∃ raw, text = raw ++ rest ∧ tag.Written raw := by
  constructor
  · intro read
    unfold tag? at read
    split at read
    · next tail =>
      obtain ⟨⟨name,more⟩,named,read⟩ := Option.bind_eq_some_iff.mp read
      obtain ⟨⟨attributes,closed,last⟩,ended,read⟩ := Option.bind_eq_some_iff.mp read
      obtain ⟨rfl,rfl⟩ := Prod.mk.inj (Option.some.inj read)
      obtain ⟨raw,rfl,derived⟩ := of_attributes? ended
      obtain ⟨rfl,spelling,_⟩ := of_name? named
      exact ⟨'<' :: (name.toList ++ raw),by simp,raw,rfl,spelling,derived⟩
    · simp at read
  · rintro ⟨_,rfl,raw,rfl,spelling,derived⟩
    have named := name?_append spelling (derived.halts rest)
    have ended := attributes?_append derived
      (show raw.length < (raw ++ rest).length + 1 by simp only [List.length_append]; omega) rest
    rw [String.ofList_toList] at named
    simp only [tag?,List.cons_append,List.append_assoc,named,Option.bind_eq_bind,Option.bind_some,
      ended]

end MailMerge.Xml
