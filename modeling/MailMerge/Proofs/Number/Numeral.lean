import MailMerge.Data.Condition
import MailMerge.Proofs.Text.Search
import MailMerge.Data.Display
import Mathlib.Algebra.Group.Nat.Defs
import Mathlib.Data.List.TakeWhile
import Std.Data.String.ToInt

/-! Numerals that are recognised but cannot be read. Wherever a numeral is looked for, the blanks around
it may include the four information separators; where it is read, they may not, and the digits of a
whole number may not be too many. That is all that stands between the two.
The digits that a number is written with are read as that number. A number that was read has digits that
are not too many. What an integer is written with is a numeral, and it stands for the float that the integer
itself is taken for, unless the integer is beyond all floats.
-/

namespace MailMerge.Number
open Text Condition

/-- The four information separators. They are blank, but no numeral may have them around it. -/
def isSeparator (c : Char) : Bool :=
  0x1c ≤ c.toNat && c.toNat ≤ 0x1f

theorem isMargin_eq {c : Char} (other : isSeparator c = false) : isMargin c = isBlank c := by
  have space : (c == ' ') = decide (c.toNat = 0x20) := by
    rw [Bool.eq_iff_iff,beq_iff_eq,decide_eq_true_iff,← Char.toNat_inj]
    rfl
  simp only [isSeparator,Bool.and_eq_false_iff,decide_eq_false_iff_not] at other
  unfold isMargin isBlank
  rw [space]
  split
  · next small =>
    rw [Bool.eq_iff_iff]
    simp only [Bool.or_eq_true,Bool.and_eq_true,decide_eq_true_eq]
    omega
  · next large =>
    rw [decide_eq_false (by omega),decide_eq_false (by omega : ¬c.toNat ≤ 0xd),decide_eq_true (by omega : 0x80 ≤ c.toNat)]
    simp

private theorem dropWhile_congr {p q : Char → Bool} {text : List Char}
    (same : ∀ c ∈ text, p c = q c) : text.dropWhile p = text.dropWhile q := by
  induction text with
  | nil => rfl
  | cons c text ih =>
    obtain ⟨here,rest⟩ := List.forall_mem_cons.mp same
    simp only [List.dropWhile_cons,here,ih rest]

/-- Without separators the blanks around a numeral are those around any text. -/
theorem trimNumeral_eq {text : List Char} (plain : ∀ c ∈ text, isSeparator c = false) :
    trimNumeral text = trim text := by
  have front : text.dropWhile isMargin = text.dropWhile isBlank :=
    dropWhile_congr fun c member => isMargin_eq (plain c member)
  rw [trimNumeral,trim,trimEnd,front]
  refine congrArg List.reverse (dropWhile_congr fun c member => isMargin_eq (plain c ?_))
  exact (List.dropWhile_sublist isBlank).subset (List.mem_reverse.mp member)

/-- Digits are read up to the first character that is none, unless that is an underscore. -/
theorem takeDigits_run (afterDigit : Bool) {text : List Char}
    (halts : (text.dropWhile isDecimal).head? ≠ some '_') :
    ∃ digits, takeDigits afterDigit text = (digits,text.dropWhile isDecimal) ∧
      digits.length = (text.takeWhile isDecimal).length := by
  induction text generalizing afterDigit with
  | nil => exact ⟨[],rfl,rfl⟩
  | cons c text ih =>
    cases value : digitValue? c with
    | some digit =>
      have decimal : isDecimal c = true := by simp [isDecimal,value]
      rw [List.dropWhile_cons_of_pos decimal] at halts ⊢
      obtain ⟨digits,taken,length_eq⟩ := ih true halts
      exact ⟨digit :: digits,by simp [takeDigits,value,taken],by simp [decimal,length_eq]⟩
    | none =>
      have other : isDecimal c = false := by simp [isDecimal,value]
      rw [List.dropWhile_cons_of_neg (by simp [other])] at halts ⊢
      have different : c ≠ '_' := by simpa using halts
      exact ⟨[],by simp [takeDigits,value,different],by simp [other]⟩


private theorem takeDigits_of_dropDigits? {text rest : List Char}
    (dropped : dropDigits? text = some rest) (halts : rest.head? ≠ some '_') (afterDigit : Bool) :
    ∃ digit digits, takeDigits afterDigit text = (digit :: digits,rest) := by
  cases text with
  | nil => simp [dropDigits?] at dropped
  | cons c text =>
    by_cases decimal : isDecimal c = true
    · rw [dropDigits?,if_pos decimal] at dropped
      have same : (c :: text).dropWhile isDecimal = rest := by
        rw [List.dropWhile_cons_of_pos decimal]
        exact Option.some.inj dropped
      obtain ⟨digits,taken,length_eq⟩ := takeDigits_run afterDigit (same.symm ▸ halts)
      rw [List.takeWhile_cons_of_pos decimal] at length_eq
      obtain ⟨digit,digits,rfl⟩ := List.exists_cons_of_length_eq_add_one length_eq
      exact ⟨digit,digits,same ▸ taken⟩
    · simp [dropDigits?,decimal] at dropped

/-- What may follow the digits of a numeral: nothing, or a power of ten. -/
private def IsPower (text : List Char) : Prop :=
  text = [] ∨ ∃ mark rest, text = mark :: rest ∧ (mark = 'e' ∨ mark = 'E') ∧
    dropDigits? (splitSign rest).2 = some []

private theorem IsPower.halts {text : List Char} (power : IsPower text) :
    text.head? ≠ some '_' ∧ text.head? ≠ some '.' := by
  rcases power with rfl | ⟨mark,rest,rfl,rfl | rfl,_⟩ <;> simp

private theorem IsPower.isSome_readExponent? {text : List Char} (power : IsPower text) :
    (readExponent? text).isSome = true := by
  rcases power with rfl | ⟨mark,rest,rfl,marked,dropped⟩
  · rfl
  · obtain ⟨digit,digits,taken⟩ := takeDigits_of_dropDigits? dropped (by simp) false
    have marked' : (mark == 'e' || mark == 'E') = true := by simpa using marked
    simp [readExponent?,marked',taken]

private theorem mantissa_cases {body rest : List Char} (mantissa : (match body with
      | '.' :: rest => dropDigits? rest
      | body => (dropDigits? body).map fun rest => match rest with
        | '.' :: rest => rest.dropWhile isDecimal
        | rest => rest) = some rest) :
    (∃ tail, body = '.' :: tail ∧ dropDigits? tail = some rest) ∨ dropDigits? body = some rest ∨
      ∃ tail, dropDigits? body = some ('.' :: tail) ∧ tail.dropWhile isDecimal = rest := by
  split at mantissa
  · exact Or.inl ⟨_,rfl,mantissa⟩
  · obtain ⟨after,dropped,same⟩ := Option.map_eq_some_iff.mp mantissa
    refine Or.inr ?_
    split at same
    · exact Or.inr ⟨_,dropped,same⟩
    · exact Or.inl (same ▸ dropped)

/-- The digits of a numeral, around a point if it has one, and what follows them. -/
private theorem digits_of_isNumeral {text : List Char} (numeral : isNumeral text = true) :
    ∃ rest, IsPower rest ∧ ((∃ tail, (splitSign (trim text)).2 = '.' :: tail ∧
      dropDigits? tail = some rest) ∨ dropDigits? (splitSign (trim text)).2 = some rest ∨
        ∃ tail, dropDigits? (splitSign (trim text)).2 = some ('.' :: tail) ∧
          tail.dropWhile isDecimal = rest) := by
  unfold isNumeral at numeral
  generalize splitSign (trim text) = split at *
  obtain ⟨sign,body⟩ := split
  dsimp only at numeral ⊢
  split at numeral
  · simp at numeral
  · next mantissa => exact ⟨[],Or.inl rfl,mantissa_cases mantissa⟩
  · next mark rest mantissa =>
    simp only [Bool.and_eq_true,Bool.or_eq_true,beq_iff_eq] at numeral
    exact ⟨mark :: rest,Or.inr ⟨mark,rest,rfl,numeral⟩,mantissa_cases mantissa⟩

theorem isSome_readUnsigned? {text : List Char} (numeral : isNumeral text = true) (negative : Bool) :
    (readUnsigned? negative (splitSign (trim text)).2).isSome = true := by
  obtain ⟨rest,power,cases⟩ := digits_of_isNumeral numeral
  have exponent := power.isSome_readExponent?
  generalize (splitSign (trim text)).2 = body at *
  rcases cases with ⟨tail,rfl,dropped⟩ | dropped | ⟨tail,dropped,rfl⟩
  · obtain ⟨digit,digits,taken⟩ := takeDigits_of_dropDigits? dropped power.halts.1 false
    have none : takeDigits false ('.' :: tail) = ([],'.' :: tail) := by
      simp [takeDigits,show digitValue? '.' = none by decide]
    simp [readUnsigned?,none,taken,exponent]
  · obtain ⟨digit,digits,taken⟩ := takeDigits_of_dropDigits? dropped power.halts.1 false
    unfold readUnsigned?
    rw [taken]
    dsimp only
    split
    · exact absurd rfl power.halts.2
    · simp [exponent]
  · obtain ⟨digit,digits,taken⟩ := takeDigits_of_dropDigits? dropped (by simp) false
    obtain ⟨fraction,taken',_⟩ := takeDigits_run false power.halts.1
    simp [readUnsigned?,taken,taken',exponent]

/-- A numeral that cannot be read has an information separator next to it. -/
theorem exists_separator {text : List Char} (numeral : isNumeral text = true)
    (unread : read? text = none) : ∃ c ∈ text, isSeparator c = true := by
  refine Classical.byContradiction fun plain => ?_
  have plain' : ∀ c ∈ text, isSeparator c = false := by
    intro c member
    exact Bool.eq_false_iff.mpr fun separator => plain ⟨c,member,separator⟩
  have read := isSome_readUnsigned? numeral (splitSign (trim text)).1
  rw [← trimNumeral_eq plain'] at read
  unfold read? at unread
  dsimp only at unread
  split at unread
  · simp at unread
  · split at unread
    · simp at unread
    · simp [unread] at read

theorem not_isBlank_of_isDecimal {c : Char} (decimal : isDecimal c = true) : isBlank c = false := by
  refine Bool.eq_false_iff.mpr fun blank => ?_
  rw [eq_false_of_isBlank isDecimal (by decide) blank] at decimal
  exact Bool.noConfusion decimal

private theorem isBlank_of_isMargin {c : Char} (margin : isMargin c = true) : isBlank c = true := by
  by_cases separator : isSeparator c = true
  · simp only [isSeparator,Bool.and_eq_true,decide_eq_true_eq] at separator
    simp [isBlank,separator,show c.toNat < 0x80 by omega]
  · rw [← isMargin_eq (Bool.eq_false_iff.mpr separator)]
    exact margin

/-- Blanks in front of a whole number are trimmed from its numeral. -/
theorem trimNumeral_append {blanks numeral : List Char}
    (blank : ∀ c ∈ blanks, isMargin c = true) (first : ∀ c ∈ numeral.head?, isBlank c = false)
    (last : ∀ c ∈ numeral.getLast?, isBlank c = false) : trimNumeral (blanks ++ numeral) = numeral := by
  have stops {text : List Char} (solid : ∀ c ∈ text.head?, isBlank c = false) :
      text.dropWhile isMargin = text := by
    cases text with
    | nil => rfl
    | cons c text =>
      apply List.dropWhile_cons_of_neg
      intro margin
      have blank := isBlank_of_isMargin margin
      rw [solid c rfl] at blank
      exact Bool.noConfusion blank
  rw [trimNumeral,List.dropWhile_append_of_pos blank,stops first,stops (by simpa using last),
    List.reverse_reverse]

/-- Digits have no sign. -/
theorem splitSign_digits {digits : List Char} (decimal : ∀ c ∈ digits, isDecimal c = true) :
    splitSign digits = (false,digits) := by
  cases digits with
  | nil => rfl
  | cons c digits =>
    have here := decimal c List.mem_cons_self
    rw [splitSign]
    · rintro rest ⟨⟩
      exact absurd here (by decide)
    · rintro rest ⟨⟩
      exact absurd here (by decide)

/-- A whole number whose numeral is not read has an information separator in front of it, or too many
digits. -/
theorem separator_or_long {blanks sign digits : List Char} (blank : ∀ c ∈ blanks, isBlank c = true)
    (signed : sign = [] ∨ sign = ['+'] ∨ sign = ['-']) (some : digits ≠ [])
    (decimal : ∀ c ∈ digits, isDecimal c = true)
    (unread : readInt? (blanks ++ sign ++ digits) = none) :
    (∃ c ∈ blanks, isSeparator c = true) ∨ maxIntegerDigits < digits.length := by
  by_cases plain : ∀ c ∈ blanks, isSeparator c = false
  · right
    have margin (c : Char) (member : c ∈ blanks) : isMargin c = true := by
      rw [isMargin_eq (plain c member)]
      exact blank c member
    have solid : ∀ c ∈ sign ++ digits, isBlank c = false := by
      intro c member
      rcases List.mem_append.mp member with member | member
      · rcases signed with rfl | rfl | rfl
        · simp at member
        · rw [List.mem_singleton.mp member]
          decide
        · rw [List.mem_singleton.mp member]
          decide
      · exact not_isBlank_of_isDecimal (decimal c member)
    have trimmed : trimNumeral (blanks ++ (sign ++ digits)) = sign ++ digits :=
      trimNumeral_append margin (fun c first => solid c (List.mem_of_head? first))
        fun c last => solid c (List.mem_of_getLast? last)
    have signless : ∃ negative, splitSign (sign ++ digits) = (negative,digits) := by
      rcases signed with rfl | rfl | rfl
      · exact ⟨false,splitSign_digits decimal⟩
      · exact ⟨false,rfl⟩
      · exact ⟨true,rfl⟩
    obtain ⟨negative,split⟩ := signless
    have all : digits.dropWhile isDecimal = [] := List.dropWhile_eq_nil_iff.mpr decimal
    obtain ⟨values,taken,length_eq⟩ := @takeDigits_run false digits (by simp [all])
    rw [all] at taken
    rw [List.takeWhile_eq_self_iff.mpr decimal] at length_eq
    rw [readInt?,List.append_assoc,trimmed,split] at unread
    dsimp only at unread
    rw [taken] at unread
    cases values with
    | nil => exact absurd (List.length_eq_zero_iff.mp length_eq.symm) some
    | cons value values =>
      dsimp only at unread
      split at unread
      · next long => exact length_eq ▸ long
      · simp at unread
  · left
    simpa using plain

theorem takeDigits_map (afterDigit : Bool) {text : List Char}
    (plain : ∀ c ∈ text, c.isDigit = true) :
    takeDigits afterDigit text = (text.map fun c => c.toNat - 0x30,[]) := by
  induction text generalizing afterDigit with
  | nil => rfl
  | cons c text ih =>
    obtain ⟨here,rest⟩ := List.forall_mem_cons.mp plain
    simp [takeDigits,digitValue?,here,ih true rest]

theorem ofDigits_map (text : List Char) :
    ofDigits (text.map fun c => c.toNat - 0x30) = Nat.ofDigitChars 10 text 0 := by
  simp only [ofDigits,List.foldl_map,Nat.ofDigitChars,Nat.mul_comm 10]
  rfl

/-- Decimal digits are read as the number that they write, if they are not too many. -/
theorem readInt?_digits {text : List Char} (present : text ≠ [])
    (plain : ∀ c ∈ text, c.isDigit = true) : readInt? text =
      if maxIntegerDigits < text.length then none
      else some (Int.ofNat (Nat.ofDigitChars 10 text 0)) := by
  have decimal : ∀ c ∈ text, isDecimal c = true := fun c member => by
    simp [isDecimal,digitValue?,plain c member]
  have solid (c : Char) (member : c ∈ text) : isBlank c = false :=
    not_isBlank_of_isDecimal (decimal c member)
  have unblank : ∀ c ∈ ([] : List Char), isMargin c = true := by simp
  have trimmed : trimNumeral text = text :=
    trimNumeral_append unblank (fun c first => solid c (List.mem_of_head? first))
      fun c last => solid c (List.mem_of_getLast? last)
  rw [readInt?,trimmed,splitSign_digits decimal]
  dsimp only
  rw [takeDigits_map false plain,← ofDigits_map text]
  cases text with
  | nil => exact absurd rfl present
  | cons c text => simp

/-- The decimal digits of a number are read as that number, if they are not too many. -/
theorem eq_of_readInt?_repr {n : Nat} {k : Int} (reading : readInt? n.repr.toList = some k) :
    k = n := by
  have plain : ∀ c ∈ Nat.toDigits 10 n, c.isDigit = true := fun c member =>
    Nat.isDigit_of_mem_toDigits (by decide) (by decide) member
  rw [Nat.toList_repr,readInt?_digits Nat.toDigits_ne_nil plain] at reading
  split at reading
  · exact nomatch reading
  · rw [← Option.some.inj reading,Nat.ofDigitChars_toDigits (by decide) (by decide)]
    rfl

theorem digitValue?_lt {c : Char} {d : Nat} (value : digitValue? c = some d) : d < 10 := by
  unfold digitValue? at value
  split at value
  · next digit =>
    have bounds : 0x30 ≤ c.toNat ∧ c.toNat ≤ 0x39 := by
      simpa [Char.isDigit,UInt32.le_iff_toNat_le] using digit
    have same := Option.some.inj value
    omega
  · split at value
    · simp at value
    · obtain ⟨first,found,rfl⟩ := Option.map_eq_some_iff.mp value
      have bounds := Array.find?_some found
      simp only [Bool.and_eq_true,decide_eq_true_eq] at bounds
      omega

private theorem lt_of_mem_takeDigits (afterDigit : Bool) (text : List Char) :
    ∀ d ∈ (takeDigits afterDigit text).1, d < 10 := by
  induction text generalizing afterDigit with
  | nil => simp [takeDigits]
  | cons c rest ih =>
    unfold takeDigits
    split
    · next value => exact List.forall_mem_cons.mpr ⟨digitValue?_lt value,ih true⟩
    · split
      · exact ih false
      · simp

private theorem ofDigits_lt {digits : List Nat} (each : ∀ d ∈ digits, d < 10) :
    ofDigits digits < 10 ^ digits.length := by
  suffices bound : ∀ n, digits.foldl (fun n d => n * 10 + d) n < (n + 1) * 10 ^ digits.length by
    simpa [ofDigits] using bound 0
  induction digits with
  | nil => simp
  | cons d digits ih =>
    intro n
    obtain ⟨small,rest⟩ := List.forall_mem_cons.mp each
    calc digits.foldl (fun n d => n * 10 + d) (n * 10 + d)
      _ < (n * 10 + d + 1) * 10 ^ digits.length := ih rest (n * 10 + d)
      _ ≤ ((n + 1) * 10) * 10 ^ digits.length := Nat.mul_le_mul_right _ (by omega)
      _ = (n + 1) * 10 ^ (digits.length + 1) := by rw [Nat.pow_succ',Nat.mul_assoc]

/-- The digits of an integer are not too many. -/
def IsShort (n : Int) : Prop :=
  n.natAbs < 10 ^ maxIntegerDigits

theorem isShort_of_readInt? {text : List Char} {n : Int} (reading : readInt? text = some n) :
    IsShort n := by
  unfold IsShort
  unfold readInt? at reading
  generalize maxIntegerDigits = most at reading ⊢
  dsimp only at reading
  split at reading
  · next d ds taken =>
    split at reading
    · simp at reading
    · next few =>
      have each : ∀ digit ∈ d :: ds, digit < 10 := by
        have all := lt_of_mem_takeDigits false (splitSign (trimNumeral text)).2
        rwa [taken] at all
      have bound : n.natAbs = ofDigits (d :: ds) := by
        rw [← Option.some.inj reading]
        split <;> simp
      rw [bound]
      exact Nat.lt_of_lt_of_le (ofDigits_lt each)
        (Nat.pow_le_pow_right (by decide) (Nat.le_of_not_lt few))
  · simp at reading

theorem digits_of_isShort {n : Int} (short : IsShort n) : digits n = .ok (toString n) := by
  unfold IsShort at short
  unfold digits intText?
  generalize maxIntegerDigits = most at short ⊢
  rw [Nat.pow_eq,if_pos short]

end MailMerge.Number

namespace MailMerge
open Number Text Condition

namespace Binary64

variable {num : Nat}

theorem same_self {x : Binary64} (number : x ≠ .nan) : x.same x = true := by
  cases x with
  | nan => exact absurd rfl number
  | infinity => simp [same,compare?]
  | finite => simp [same,compare?]

/-- How large the exponent of a rounded quotient is at least. -/
private theorem exists_exponent (negative : Bool) (some : num ≠ 0) (den : Nat) :
    ∃ m e, (num.log2 : Int) - den.log2 - 53 ≤ e ∧ ofQuotient negative num den =
      if 971 < e then .infinity negative else .finite negative m e := by
  unfold ofQuotient
  rw [if_neg (by simpa using some)]
  -- the scaling stays closed, or else the kernel looks for the two scaled quotients in each other
  obtain ⟨scale,same⟩ : ∃ scale, scale = scaledBy num den := ⟨_,rfl⟩
  rw [← same]
  extract_lets estimate
  split
  extract_lets exact e
  have least : estimate - 1 ≤ e := by
    unfold e exact
    split <;> omega
  split
  extract_lets m
  split
  next rounded =>
  refine ⟨_,_,?_,rfl⟩
  split at rounded
  · obtain ⟨-,rfl⟩ := Prod.mk.inj rounded
    omega
  · obtain ⟨-,rfl⟩ := Prod.mk.inj rounded
    omega

theorem ofQuotient_ne_nan (negative : Bool) (num den : Nat) : ofQuotient negative num den ≠ .nan := by
  by_cases none : num = 0
  · rw [none]
    exact nofun
  · obtain ⟨m,e,-,same⟩ := exists_exponent negative none den
    rw [same]
    split <;> exact nofun

private theorem three_mul_le_log2 {k : Nat} (large : 10 ^ k ≤ num) : 3 * k ≤ num.log2 := by
  have some : num ≠ 0 := Nat.ne_of_gt (Nat.lt_of_lt_of_le (Nat.pow_pos (by decide)) large)
  refine (Nat.le_log2 some).mpr (Nat.le_trans ?_ large)
  rw [Nat.pow_mul]
  exact Nat.pow_le_pow_left (by decide) k

/-- No float has more than 400 digits before its point. -/
private theorem ofQuotient_of_large (negative : Bool) {k : Nat} (many : 400 ≤ k)
    (large : 10 ^ k ≤ num) : ofQuotient negative num 1 = .infinity negative := by
  have bits := three_mul_le_log2 large
  have some : num ≠ 0 := Nat.ne_of_gt (Nat.lt_of_lt_of_le (Nat.pow_pos (by decide)) large)
  obtain ⟨m,e,least,same⟩ := exists_exponent negative some 1
  rw [show Nat.log2 1 = 0 from rfl] at least
  rw [same,if_pos (by omega)]

private theorem length_toDigits_le {negative : Bool}
    (finite : ofQuotient negative num 1 ≠ .infinity negative) {k : Nat} (many : 400 ≤ k) :
    (Nat.toDigits 10 num).length ≤ k := by
  by_contra long
  have large := (Nat.length_toDigits_le_iff (by decide) (by omega)).not.mp long
  exact finite (ofQuotient_of_large _ many (Nat.le_of_not_lt large))

/-- The digits of an integer are read as the float that it is taken for. -/
theorem ofDecimal_of_ofInt? {n : Int} {x : Binary64} (near : ofInt? n = some x) :
    ofDecimal (n < 0) n.natAbs 0 = x ∧ x ≠ .nan := by
  obtain ⟨quotient,finite⟩ : ofQuotient (n < 0) n.natAbs 1 = x ∧ ∀ negative, x ≠ .infinity negative := by
    unfold ofInt? at near
    split at near
    · exact nomatch near
    · next other => exact Option.some.inj near ▸ ⟨rfl,other⟩
  have short : (Nat.toDigits 10 n.natAbs).length ≤ 400 :=
    length_toDigits_le (quotient ▸ finite _) (Nat.le_refl _)
  refine ⟨?_,quotient ▸ ofQuotient_ne_nan _ _ _⟩
  rw [← quotient]
  unfold ofDecimal
  dsimp only
  split
  · next zero =>
    have none : n.natAbs = 0 := by
      simp only [Bool.or_eq_true,beq_iff_eq,decide_eq_true_eq] at zero
      omega
    rw [none]
    rfl
  · rw [if_neg (by omega)]
    simp

end Binary64

namespace Number

/-- The sign of a number below zero. -/
def signText (negative : Bool) : List Char :=
  if negative then ['-'] else []

theorem toList_toString (n : Int) :
    (toString n).toList = signText (n < 0) ++ Nat.toDigits 10 n.natAbs := by
  cases n with
  | ofNat m => exact Nat.toList_repr
  | negSucc m =>
    have written : toString (Int.negSucc m) = "-" ++ (m + 1).repr := rfl
    have below : Int.negSucc m < 0 := Int.negSucc_lt_zero m
    rw [written,String.toList_append,Nat.toList_repr,decide_eq_true below]
    rfl

private theorem toLower_of_isDigit {c : Char} (digit : c.isDigit = true) : c.toLower = c := by
  have bounds : 0x30 ≤ c.toNat ∧ c.toNat ≤ 0x39 := by
    simpa [Char.isDigit,UInt32.le_iff_toNat_le] using digit
  have low : ¬(c.val ≥ 'A'.val ∧ c.val ≤ 'Z'.val) := by
    rw [ge_iff_le,UInt32.le_iff_toNat_le]
    rintro ⟨upper,-⟩
    exact absurd (Nat.le_trans upper bounds.2) (by decide)
  exact dif_neg low

/-- An integer is written with its digits, unless they are too many. -/
theorem eq_of_digits {n : Int} {text : String} (written : digits n = .ok text) :
    text = toString n := by
  unfold digits intText? at written
  -- the bound stays closed, or else it is computed
  generalize maxIntegerDigits = most at written
  split at written
  · next short =>
    obtain rfl := Except.ok.inj written
    split at short
    · exact (Option.some.inj short).symm
    · exact nomatch short
  · exact nomatch written

section
variable (negative : Bool) {digits : List Char} (plain : ∀ c ∈ digits, c.isDigit = true)
include plain

private theorem isDecimal_of_plain (c : Char) (member : c ∈ digits) : isDecimal c = true := by
  simp [isDecimal,digitValue?,plain c member]

private theorem solid_signed : ∀ c ∈ signText negative ++ digits, isBlank c = false := by
  intro c member
  rcases List.mem_append.mp member with sign | digit
  · cases negative with
    | false => exact nomatch sign
    | true =>
      rw [List.mem_singleton.mp sign]
      decide
  · exact not_isBlank_of_isDecimal (isDecimal_of_plain plain c digit)

theorem splitSign_signed : splitSign (signText negative ++ digits) = (negative,digits) := by
  cases negative with
  | true => rfl
  | false => exact splitSign_digits (isDecimal_of_plain plain)

theorem read?_digits (some : digits ≠ []) : read? (signText negative ++ digits) =
    Option.some (.ofDecimal negative (Nat.ofDigitChars 10 digits 0) 0) := by
  have solid := solid_signed negative plain
  have trimmed : trimNumeral (signText negative ++ digits) = signText negative ++ digits :=
    @trimNumeral_append [] _ nofun (fun c first => solid c (List.mem_of_head? first))
      fun c last => solid c (List.mem_of_getLast? last)
  obtain ⟨c,rest,rfl⟩ := List.exists_cons_of_ne_nil some
  have digit : c.isDigit = true := plain c List.mem_cons_self
  -- the words for infinity and for no number begin with letters
  have wordless {word : String} (letter : word.toList.head?.any Char.isDigit = false) :
      (String.ofList ((c :: rest).map Char.toLower) == word) = false := by
    refine beq_eq_false_iff_ne.mpr fun same => ?_
    rw [← same,String.toList_ofList] at letter
    have lowered : c.toLower.isDigit = false := letter
    rw [toLower_of_isDigit digit,digit] at lowered
    exact Bool.noConfusion lowered
  rw [read?,trimmed,splitSign_signed negative plain]
  dsimp only
  rw [wordless (by decide),wordless (by decide),wordless (by decide),readUnsigned?,
    takeDigits_map false plain]
  simp only [Bool.or_false,Bool.false_eq_true,if_false,List.map_cons,List.isEmpty_cons,Bool.false_and,
    readExponent?,List.append_nil,Option.map_some,← ofDigits_map]
  rfl

theorem isNumeral_digits (some : digits ≠ []) : isNumeral (signText negative ++ digits) = true := by
  have solid := solid_signed negative plain
  rw [isNumeral,trim_of_solid (fun c first => solid c (List.mem_of_head? first))
    fun c last => solid c (List.mem_of_getLast? last),splitSign_signed negative plain]
  have decimal := isDecimal_of_plain plain
  obtain ⟨c,rest,rfl⟩ := List.exists_cons_of_ne_nil some
  obtain ⟨here,others⟩ := List.forall_mem_cons.mp decimal
  have pointless : c ≠ '.' := by
    rintro rfl
    exact absurd here (by decide)
  have all : rest.dropWhile isDecimal = [] := List.dropWhile_eq_nil_iff.mpr others
  simp [pointless,dropDigits?,here,all]

end

end Number

/-- The digits of an integer stand for the same float as the integer. -/
theorem Condition.number_digits {n : Int} {x : Binary64} (near : Binary64.ofInt? n = some x) :
    number (.text (toString n)) = .ok x := by
  have plain : ∀ c ∈ Nat.toDigits 10 n.natAbs, c.isDigit = true := fun c member =>
    Nat.isDigit_of_mem_toDigits (by decide) (by decide) member
  simp only [number,toList_toString,isNumeral_digits _ plain Nat.toDigits_ne_nil,if_true,
    read?_digits _ plain Nat.toDigits_ne_nil]
  rw [Nat.ofDigitChars_toDigits (by decide) (by decide),(Binary64.ofDecimal_of_ofInt? near).1]

end MailMerge

/-! Finite numbers in words. What a finite number is written as is a decimal numeral, and the words for the others
are none.
-/
namespace MailMerge.Number

/-- Decimal digits, one at least. -/
structure IsDigits (text : List Char) : Prop where
  some : text ≠ []
  plain : ∀ c ∈ text, c.isDigit = true

/-- Nothing, or a point with digits after it. -/
inductive IsFraction : List Char → Prop
  | none : IsFraction []
  | places {digits : List Char} (isDigits : IsDigits digits) : IsFraction ('.' :: digits)

/-- Nothing, or a power of ten with its sign. -/
inductive IsScale : List Char → Prop
  | none : IsScale []
  | power {sign : Char} {digits : List Char} (signed : sign = '+' ∨ sign = '-') (isDigits : IsDigits digits) :
    IsScale ('e' :: sign :: digits)

/-- A decimal numeral. -/
inductive IsDecimal : List Char → Prop
  | mk (negative : Bool) {whole fraction scale : List Char} (isDigits : IsDigits whole)
    (isFraction : IsFraction fraction) (isScale : IsScale scale) :
    IsDecimal (signText negative ++ (whole ++ (fraction ++ scale)))

theorem isDigits_toDigits (n : Nat) : IsDigits (Nat.toDigits 10 n) :=
  ⟨Nat.toDigits_ne_nil,fun _ member => Nat.isDigit_of_mem_toDigits (by decide) (by decide) member⟩

theorem isDigits_zero : IsDigits ['0'] :=
  isDigits_toDigits 0

namespace IsDigits

variable {digits : List Char} (isDigits : IsDigits digits)
include isDigits

theorem append {more : List Char} (plain : ∀ c ∈ more, c.isDigit = true) : IsDigits (digits ++ more) := by
  refine ⟨by simp [isDigits.some],fun c member => ?_⟩
  rcases List.mem_append.mp member with member | member
  · exact isDigits.plain c member
  · exact plain c member

theorem prepend {more : List Char} (plain : ∀ c ∈ more, c.isDigit = true) : IsDigits (more ++ digits) := by
  refine ⟨by simp [isDigits.some],fun c member => ?_⟩
  rcases List.mem_append.mp member with member | member
  · exact plain c member
  · exact isDigits.plain c member

theorem take {n : Nat} (some : 0 < n) : IsDigits (digits.take n) :=
  ⟨by simp [isDigits.some,Nat.ne_of_gt some],fun c member => isDigits.plain c (List.mem_of_mem_take member)⟩

theorem drop {n : Nat} (more : n < digits.length) : IsDigits (digits.drop n) :=
  ⟨by simp [more],fun c member => isDigits.plain c (List.mem_of_mem_drop member)⟩

end IsDigits

private theorem plain_zeros (n : Nat) : ∀ c ∈ List.replicate n '0', c.isDigit = true := by
  intro c member
  rw [List.eq_of_mem_replicate member]
  decide

theorem isDecimal_toString (n : Int) : IsDecimal (toString n).toList := by
  have numeral : IsDecimal (signText (n < 0) ++ (Nat.toDigits 10 n.natAbs ++ ([] ++ []))) :=
    .mk _ (isDigits_toDigits _) .none .none
  rw [toList_toString]
  simpa using numeral

/-- The natural notation of a number, one of the forms of a numeral without a sign. -/
theorem isDecimal_naturalText (negative : Bool) (m : Nat) (e : Int) :
    IsDecimal (signText negative ++ naturalText m e) := by
  have form {text : List Char} (whole fraction scale : List Char) (same : text = whole ++ (fraction ++ scale))
      (isDigits : IsDigits whole) (isFraction : IsFraction fraction) (isScale : IsScale scale) :
      IsDecimal (signText negative ++ text) :=
    same ▸ .mk negative isDigits isFraction isScale
  unfold naturalText
  split
  · exact form ['0'] ['.','0'] [] rfl isDigits_zero (.places isDigits_zero) .none
  · extract_lets d digits power exponent padded fraction
    have isDigits : IsDigits digits := isDigits_toDigits _
    split
    · split
      · exact form (digits ++ List.replicate d.scale.toNat '0') ['.','0'] [] (by simp)
          (isDigits.append (plain_zeros _)) (.places isDigits_zero) .none
      · split
        · next below above =>
          have more : power.toNat + 1 < digits.length := by omega
          exact form (digits.take (power.toNat + 1)) ('.' :: digits.drop (power.toNat + 1)) [] (by simp)
            (isDigits.take (Nat.succ_pos _)) (.places (isDigits.drop more)) .none
        · exact form ['0'] ('.' :: (List.replicate (-power - 1).toNat '0' ++ digits)) [] (by simp) isDigits_zero
            (.places (isDigits.prepend (plain_zeros _))) .none
    · have isExponent : IsDigits exponent := isDigits_toDigits _
      have isPadded : IsDigits padded := by
        unfold padded
        split
        · exact isExponent.prepend (plain_zeros 1)
        · exact isExponent
      have isFraction : IsFraction fraction := by
        unfold fraction
        split
        · exact .none
        · next more =>
          have length_ne : digits.length ≠ 0 := fun none => isDigits.some (List.length_eq_zero_iff.mp none)
          exact .places (isDigits.drop (by simp at more; omega))
      refine form (digits.take 1) fraction ('e' :: (if power < 0 then '-' else '+') :: padded) (by simp)
        (isDigits.take Nat.one_pos) isFraction (.power ?_ isPadded)
      split
      · exact Or.inr rfl
      · exact Or.inl rfl

/-- The words for what is not finite. -/
def endlessWords : List String :=
  ["nan","inf","-inf"]

theorem IsDecimal.exists_isDigit {text : List Char} (isDecimal : IsDecimal text) :
    ∃ c ∈ text, c.isDigit = true := by
  obtain ⟨negative,isDigits,-,-⟩ := isDecimal
  obtain ⟨c,member⟩ := List.exists_mem_of_ne_nil _ isDigits.some
  exact ⟨c,by simp [member],isDigits.plain c member⟩

theorem not_isDecimal_of_mem {word : String} (endless : word ∈ endlessWords) : ¬ IsDecimal word.toList := by
  intro isDecimal
  obtain ⟨c,member,digit⟩ := isDecimal.exists_isDigit
  have letters : endlessWords.all (fun word => word.toList.all fun c => !c.isDigit) = true := by decide
  have letter := List.all_eq_true.mp (List.all_eq_true.mp letters word endless) c member
  simp [digit] at letter

end MailMerge.Number

namespace MailMerge
open Number

theorem Binary64.text_cases (x : Binary64) :
    (x.quotient? ≠ none ∧ IsDecimal x.text.toList) ∨ (x.quotient? = none ∧ x.text ∈ endlessWords) := by
  cases x with
  | nan => exact .inr ⟨rfl,by simp [text,endlessWords]⟩
  | infinity negative => exact .inr ⟨rfl,by cases negative <;> simp [text,endlessWords]⟩
  | finite negative m e =>
    rw [text,String.toList_ofList]
    exact .inl ⟨nofun,isDecimal_naturalText negative m e⟩

/-- A float is displayed as a decimal numeral if it is finite, and as a word if not. -/
theorem Value.display_float_cases {x : Binary64} {shown : String} (display : (Value.float x).display = .ok shown) :
    (x.quotient? ≠ none ∧ IsDecimal shown.toList) ∨ (x.quotient? = none ∧ shown ∈ endlessWords) := by
  simp only [Value.display] at display
  split at display
  · next n integral whole =>
    have finite : x.quotient? ≠ none := by
      cases x with
      | finite => exact nofun
      | nan => exact nomatch integral
      | infinity => exact nomatch integral
    exact Except.ok.inj display ▸ .inl ⟨finite,isDecimal_toString n⟩
  · exact Except.ok.inj display ▸ x.text_cases

theorem Value.isDecimal_of_display_int {n : Int} {shown : String} (display : (Value.int n).display = .ok shown) :
    IsDecimal shown.toList := by
  rw [Value.display] at display
  rw [eq_of_digits display]
  exact isDecimal_toString n

end MailMerge
