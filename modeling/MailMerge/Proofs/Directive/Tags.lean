import MailMerge.Directive.Scan
import MailMerge.Proofs.Directive.Search
import MailMerge.Proofs.Text.Search

/-! How far the directives reach. Each begins with an opening brace. Whether a tag is read depends on the
text up to the next closing brace only; whether a block is read also depends on a closing tag further on.
Each recognizer is put together from readers of which the same is known.
-/
namespace MailMerge.Directive
open Text

variable {α β : Type} {good : List Char → Prop} {text rest : List Char}

private theorem drop_takeWhile (accept : Char → Bool) (text : List Char) :
    text.drop (text.takeWhile accept).length = text.dropWhile accept := by
  conv_lhs => arg 2; rw [← List.takeWhile_append_dropWhile (p := accept) (l := text)]
  rw [List.drop_left]

theorem run?_eq (accept : Char → Bool) (text : List Char) : run? accept text =
    if (text.takeWhile accept).isEmpty then none
    else some (text.takeWhile accept,text.dropWhile accept) := by
  rw [run?,drop_takeWhile]

/-! What the readers do with a text in which a closing brace is marked. -/

section
variable (inside tail : List Char)

theorem takeWhile_inside {accept : Char → Bool} (refused : accept '\x7d' = false) :
    (inside ++ '\x7d' :: tail).takeWhile accept = inside.takeWhile accept := by
  rw [List.takeWhile_append,List.takeWhile_cons_of_neg (by simp [refused]),List.append_nil]
  split
  · next whole => exact ((List.takeWhile_prefix accept).eq_of_length whole).symm
  · rfl

theorem dropWhile_inside {accept : Char → Bool} (refused : accept '\x7d' = false) :
    (inside ++ '\x7d' :: tail).dropWhile accept = inside.dropWhile accept ++ '\x7d' :: tail := by
  rw [List.dropWhile_append,List.dropWhile_cons_of_neg (by simp [refused])]
  split
  · next none => rw [List.isEmpty_iff.mp none,List.nil_append]
  · rfl

theorem skipBlanks_inside : skipBlanks (inside ++ '\x7d' :: tail) =
    skipBlanks inside ++ '\x7d' :: tail :=
  dropWhile_inside inside tail (by decide)

theorem run?_inside {accept : Char → Bool} (refused : accept '\x7d' = false) :
    run? accept (inside ++ '\x7d' :: tail) =
      (run? accept inside).map fun pair => (pair.1,pair.2 ++ '\x7d' :: tail) := by
  simp only [run?_eq,takeWhile_inside inside tail refused,dropWhile_inside inside tail refused]
  split <;> rfl

theorem after?_inside {piece : List Char} (plain : '\x7d' ∉ piece) :
    after? piece (inside ++ '\x7d' :: tail) =
      (after? piece inside).map (· ++ '\x7d' :: tail) := by
  induction piece generalizing inside with
  | nil => rfl
  | cons p piece ih =>
    obtain ⟨other,plain⟩ := not_or.mp (List.mem_cons.not.mp plain)
    cases inside with
    | nil => simp [after?,Ne.symm other]
    | cons c inside =>
      simp only [List.cons_append,after?,ih inside plain]
      split <;> rfl

end

theorem of_run? {accept : Char → Bool} {head : List Char} (runs : run? accept text = some (head,rest)) :
    text = head ++ rest ∧ head ≠ [] ∧ ∀ c ∈ head, accept c = true := by
  rw [run?_eq] at runs
  split at runs
  · exact nomatch runs
  · next some =>
    obtain ⟨rfl,rfl⟩ := Prod.mk.inj (Option.some.inj runs)
    exact ⟨List.takeWhile_append_dropWhile.symm,fun none => some (List.isEmpty_iff.mpr none),
      List.all_eq_true.mp List.all_takeWhile⟩

/-- One character or more of a class. -/
structure IsRun (accept : Char → Bool) (run : List Char) : Prop where
  some : run ≠ []
  each : ∀ c ∈ run, accept c = true

theorem exists_of_run? {accept : Char → Bool} {head : List Char} (runs : run? accept text = some (head,rest)) :
    text = head ++ rest ∧ IsRun accept head := by
  obtain ⟨split,some,each⟩ := of_run? runs
  exact ⟨split,some,each⟩

theorem exists_of_blanks? (blank : blanks? text = some rest) :
    ∃ run, text = run ++ rest ∧ IsRun isBlank run := by
  obtain ⟨⟨run,rest⟩,runs,rfl⟩ := Option.map_eq_some_iff.mp blank
  exact ⟨run,exists_of_run? runs⟩

theorem run?_append {accept : Char → Bool} {run : List Char} (isRun : IsRun accept run)
    (halts : Halts accept rest) : run? accept (run ++ rest) = some (run,rest) := by
  have accepted : run.all accept = true := List.all_eq_true.mpr isRun.each
  rw [run?_eq,takeWhile_run accepted halts,dropWhile_run accepted halts,
    if_neg (by simpa using isRun.some)]

/-- A text is cut at the first place where the piece stands. -/
theorem occursIn_of_cut? {piece head tail : List Char} (some : piece ≠ [])
    (cut : cut? piece text = Option.some (head,tail)) : occursIn piece head = false := by
  obtain ⟨p,others,rfl⟩ := List.exists_cons_of_ne_nil some
  induction text generalizing head with
  | nil => exact nomatch cut
  | cons c text ih =>
    rw [cut?] at cut
    split at cut
    · obtain ⟨rfl,-⟩ := Prod.mk.inj (Option.some.inj cut)
      rfl
    · next missing =>
      obtain ⟨⟨front,tail'⟩,later,same⟩ := Option.map_eq_some_iff.mp cut
      obtain ⟨rfl,rfl⟩ := Prod.mk.inj same
      have absent := ih later
      have missing' : after? (p :: others) (c :: front) = none := by
        rw [after?_eq_none_iff] at missing ⊢
        intro starts
        refine missing (starts.trans ?_)
        rw [eq_append_of_cut? later,List.append_assoc]
        exact List.prefix_append (c :: front) _
      simp only [occursIn,cut?,missing'] at absent ⊢
      simpa using absent

/-- A text that holds a piece is cut no later than there. -/
theorem exists_cut? (piece before rest : List Char) : ∃ head tail,
    cut? piece (before ++ piece ++ rest) = some (head,tail) ∧ head.length ≤ before.length := by
  induction before with
  | nil =>
    rw [List.nil_append]
    cases whole : piece ++ rest with
    | nil =>
      obtain ⟨rfl,rfl⟩ := List.append_eq_nil_iff.mp whole
      exact ⟨[],[],rfl,Nat.le_refl _⟩
    | cons c text =>
      have begins : after? piece (c :: text) = some rest := whole ▸ after?_append piece rest
      exact ⟨[],rest,by rw [cut?,begins],Nat.zero_le _⟩
  | cons c before ih =>
    obtain ⟨head,tail,cut,le⟩ := ih
    rw [List.cons_append,List.cons_append,cut?]
    cases after? piece (c :: (before ++ piece ++ rest)) with
    | some tail => exact ⟨[],tail,rfl,Nat.zero_le _⟩
    | none => exact ⟨c :: head,tail,by rw [cut]; rfl,Nat.succ_le_succ le⟩

theorem occursIn_iff {piece : List Char} : occursIn piece text = true ↔ piece <:+: text := by
  constructor
  · intro occurs
    obtain ⟨⟨head,tail⟩,cut⟩ := Option.isSome_iff_exists.mp occurs
    exact ⟨head,tail,(eq_append_of_cut? cut).symm⟩
  · rintro ⟨before,rest,rfl⟩
    obtain ⟨head,tail,cut,-⟩ := exists_cut? piece before rest
    exact Option.isSome_of_mem cut

theorem takeWhile_closed {inside : List Char} (closed : '\x7d' ∉ inside) (tail : List Char) :
    (inside ++ '\x7d' :: tail).takeWhile (· != '\x7d') = inside := by
  refine takeWhile_run (List.all_eq_true.mpr fun c member => ?_) (.cons (by decide) tail)
  exact bne_iff_ne.mpr fun same => closed (same ▸ member)

theorem untilBrace?_inside {inside : List Char} (closed : '\x7d' ∉ inside) (tail : List Char) :
    untilBrace? (inside ++ '\x7d' :: tail) = some (inside,tail) := by
  simp only [untilBrace?,takeWhile_closed closed,List.drop_left]

/-- What is left of a text after a reader is the end of the text. -/
def Leaves (f : List Char → Option (α × List Char)) : Prop :=
  ∀ {text value rest}, f text = some (value,rest) → rest <:+ text

/-- Whether something is read depends on the text up to the next closing brace and on whether what follows
it is good. -/
def Bounded (good : List Char → Prop) (f : List Char → Option β) : Prop :=
  ∀ {inside tail other : List Char}, '\x7d' ∉ inside → (good tail → good other) →
    (f (inside ++ '\x7d' :: tail)).isSome → (f (inside ++ '\x7d' :: other)).isSome

/-- A reader of the text up to the next closing brace, and of what follows as far as it is good. -/
structure Reads (good : List Char → Prop) (f : List Char → Option (α × List Char)) : Prop where
  leaves : Leaves f
  bounded : Bounded good f

/-- A reader of what follows a closing brace. -/
structure Follows (good : List Char → Prop) (f : List Char → Option (α × List Char)) : Prop where
  leaves : Leaves f
  keeps : ∀ {tail other}, (good tail → good other) → (f tail).isSome → (f other).isSome

namespace Follows

theorem of_some (value : α) : Follows good fun rest => some (value,rest) where
  leaves reads := (Prod.mk.inj (Option.some.inj reads)).2 ▸ List.suffix_rfl
  keeps _ read := read

theorem of_none : Follows good fun _ => (none : Option (α × List Char)) where
  leaves reads := nomatch reads
  keeps _ read := read

theorem of_cut (close : List Char) (value : List Char → α) :
    Follows (occursIn close · = true) fun rest =>
      cut? close rest >>= fun pair => some (value pair.1,pair.2) where
  leaves {text _ rest} reads := by
    obtain ⟨⟨content,tail⟩,cut,reads⟩ := Option.bind_eq_some_iff.mp reads
    obtain ⟨-,rfl⟩ := Prod.mk.inj (Option.some.inj reads)
    rw [eq_append_of_cut? cut]
    exact List.suffix_append _ _
  keeps {tail other} keeps read := by
    have holds {text : List Char} : (cut? close text >>= fun pair =>
        some (value pair.1,pair.2)).isSome = occursIn close text := by
      rw [occursIn]
      cases cut? close text <;> rfl
    rw [holds] at read ⊢
    exact keeps read

end Follows

namespace Reads

variable {next : List Char → Option (α × List Char)}

theorem of_after {piece : List Char} (plain : '\x7d' ∉ piece) (more : Reads good next) :
    Reads good fun text => after? piece text >>= next where
  leaves reads := by
    obtain ⟨left,begins,reads⟩ := Option.bind_eq_some_iff.mp reads
    rw [eq_append_of_after? begins]
    exact (more.leaves reads).trans (List.suffix_append _ _)
  bounded {inside tail other} closed keeps read := by
    beta_reduce at read ⊢
    rw [after?_inside _ _ plain] at read ⊢
    cases begins : after? piece inside with
    | none => simp [begins] at read
    | some left =>
      rw [begins] at read
      rw [eq_append_of_after? begins,List.mem_append,not_or] at closed
      exact more.bounded closed.2 keeps read

theorem of_run {accept : Char → Bool} {next : List Char × List Char → Option (α × List Char)}
    (refused : accept '\x7d' = false) (more : ∀ head, Reads good fun rest => next (head,rest)) :
    Reads good fun text => run? accept text >>= next where
  leaves {text _ _} reads := by
    obtain ⟨⟨head,left⟩,runs,reads⟩ := Option.bind_eq_some_iff.mp reads
    rw [(of_run? runs).1]
    exact ((more head).leaves reads).trans (List.suffix_append _ _)
  bounded {inside tail other} closed keeps read := by
    beta_reduce at read ⊢
    rw [run?_inside _ _ refused] at read ⊢
    cases runs : run? accept inside with
    | none => simp [runs] at read
    | some pair =>
      rw [runs] at read
      rw [(of_run? runs).1,List.mem_append,not_or] at closed
      exact (more pair.1).bounded closed.2 keeps read

theorem of_blanks (more : Reads good next) : Reads good fun text => blanks? text >>= next := by
  have run : Reads good fun text => run? isBlank text >>= fun pair => next pair.2 :=
    .of_run (by decide) fun _ => more
  convert run using 2 with text
  rw [blanks?]
  cases run? isBlank text <;> rfl

theorem of_skip (more : Reads good next) : Reads good fun text => next (skipBlanks text) where
  leaves reads := (more.leaves reads).trans (List.dropWhile_suffix isBlank)
  bounded {inside tail other} closed keeps read := by
    beta_reduce at read ⊢
    rw [skipBlanks_inside] at read ⊢
    exact more.bounded (fun member => closed ((List.dropWhile_suffix isBlank).subset member)) keeps read

theorem of_brace (follows : Follows good next) :
    Reads good fun text => after? ['\x7d'] text >>= next where
  leaves reads := by
    obtain ⟨left,begins,reads⟩ := Option.bind_eq_some_iff.mp reads
    rw [eq_append_of_after? begins]
    exact (follows.leaves reads).trans (List.suffix_append _ _)
  bounded {inside tail other} closed keeps read := by
    cases inside with
    | nil => exact follows.keeps keeps read
    | cons c inside =>
      have different : '\x7d' ≠ c := fun same => closed (same ▸ List.mem_cons_self)
      simp [after?,different] at read

theorem of_closing (follows : Follows good next) :
    Reads good fun text => closing? text >>= next :=
  .of_skip (of_brace follows)

theorem of_until {next : List Char × List Char → Option (α × List Char)}
    (follows : ∀ head, Follows good fun rest => next (head,rest)) :
    Reads good fun text => untilBrace? text >>= next where
  leaves {text _ _} reads := by
    obtain ⟨⟨head,left⟩,ends,reads⟩ := Option.bind_eq_some_iff.mp reads
    refine ((follows head).leaves reads).trans ?_
    simp only [untilBrace?] at ends
    split at ends
    · next here =>
      obtain ⟨-,rfl⟩ := Prod.mk.inj (Option.some.inj ends)
      exact (List.suffix_cons _ _).trans (here ▸ List.drop_suffix _ _)
    · exact nomatch ends
  bounded {inside tail other} closed keeps read := by
    beta_reduce at read ⊢
    rw [untilBrace?_inside closed] at read ⊢
    exact (follows inside).keeps keeps read

/-- A mark decides how the reading goes on. -/
theorem of_mark {f g : List Char → Option (α × List Char)} (mark : Char) (free : mark ≠ '\x7d')
    (marked : Reads good f) (unmarked : Reads good g) (here : ∀ rest, next (mark :: rest) = f rest)
    (there : ∀ text, text.head? ≠ some mark → next text = g text) : Reads good next where
  leaves {text _ _} reads := by
    by_cases first : text.head? = some mark
    · obtain ⟨rest,rfl⟩ := List.head?_eq_some_iff.mp first
      exact (marked.leaves (here rest ▸ reads)).trans (List.suffix_cons _ _)
    · exact unmarked.leaves (there text first ▸ reads)
  bounded {inside tail other} closed keeps read := by
    cases inside with
    | nil =>
      have first (rest : List Char) : ('\x7d' :: rest).head? ≠ some mark :=
        fun same => free (Option.some.inj same).symm
      rw [List.nil_append,there _ (first _)] at read ⊢
      have read : (g ([] ++ '\x7d' :: tail)).isSome = true := read
      have read' := unmarked.bounded closed keeps read
      exact read'
    | cons c inside =>
      by_cases first : c = mark
      · rw [first,List.cons_append,here] at read ⊢
        exact marked.bounded (fun member => closed (List.mem_cons_of_mem c member)) keeps read
      · have first (rest : List Char) : (c :: inside ++ '\x7d' :: rest).head? ≠ some mark :=
          fun same => first (Option.some.inj same)
        rw [there _ (first _)] at read ⊢
        exact unmarked.bounded closed keeps read

end Reads

/-- A reader of what begins with an opening brace. -/
structure Braced (good : List Char → Prop) (f : List Char → Option β) : Prop where
  opens : ∀ {text}, (f text).isSome → ∃ rest, text = '\x7b' :: rest
  bounded : Bounded good f

theorem Braced.silent_of_plain {f : List Char → Option β} (braced : Braced good f)
    (plain : '\x7b' ∉ text) : Silent f text := by
  intro rest inside
  by_contra read
  obtain ⟨left,rfl⟩ := braced.opens (Option.isSome_iff_ne_none.mpr read)
  exact plain (inside.subset List.mem_cons_self)

/-- A recognizer of a directive. -/
structure Tag (good : List Char → Prop) (r : Recognizer α) : Prop extends Braced good r where
  proper : Proper r

theorem Tag.of_after {mark : List Char} {next : List Char → Option (α × List Char)}
    (plain : '\x7d' ∉ mark) (more : Reads good next) :
    Tag good fun text => after? ('\x7b' :: mark) text >>= next where
  proper {text value rest} reads := by
    obtain ⟨left,begins,reads⟩ := Option.bind_eq_some_iff.mp reads
    obtain ⟨front,split⟩ := more.leaves reads
    refine ⟨'\x7b' :: mark ++ front,by simp,?_⟩
    rw [eq_append_of_after? begins,← split,List.append_assoc]
  opens {text} read := by
    obtain ⟨pair,reads⟩ := Option.isSome_iff_exists.mp read
    obtain ⟨left,begins,-⟩ := Option.bind_eq_some_iff.mp reads
    exact ⟨_,eq_append_of_after? begins⟩
  bounded := (Reads.of_after (by simpa using plain) more).bounded

/-- A reader of a tag does not look at what follows the tag. -/
abbrev Alone (_ : List Char) : Prop :=
  True

theorem braced_after {name : List Char} (plain : '\x7d' ∉ name) :
    Braced Alone (after? ('\x7b' :: name ++ ['\x7d'])) where
  opens {text} read := by
    obtain ⟨rest,begins⟩ := Option.isSome_iff_exists.mp read
    exact ⟨_,eq_append_of_after? begins⟩
  bounded {inside tail other} closed _ read := by
    obtain ⟨rest,begins⟩ := Option.isSome_iff_exists.mp read
    have split := eq_append_of_after? begins
    rw [List.append_assoc] at split
    have closed' : '\x7d' ∉ '\x7b' :: name := by simpa using plain
    obtain ⟨rfl,-⟩ := eq_of_append_cons closed closed' split
    have reads := after?_append ('\x7b' :: name ++ ['\x7d']) other
    rw [List.append_assoc] at reads
    exact Option.isSome_of_mem reads

theorem tag_table : Tag Alone table? :=
  .of_after (by decide) (.of_skip (.of_after (by decide) (.of_run (by decide) fun key =>
    .of_closing (.of_some _))))

theorem tag_chart : Tag Alone chart? := by
  refine .of_after (by decide) (.of_skip (.of_after (by decide) (.of_run (by decide) fun chartType =>
    .of_after (by decide) (.of_run (by decide) fun key => ?_))))
  refine .of_mark ':' (by decide) (.of_until fun title => .of_some _)
    (.of_closing (.of_some ⟨lower (String.ofList chartType),String.ofList key,none⟩)) (fun _ => rfl)
      fun text first => ?_
  dsimp only
  split
  · exact absurd rfl first
  · rfl

theorem tag_image : Tag Alone image? := by
  refine .of_after (by decide) (.of_skip (.of_run (by decide) fun key => ?_))
  refine .of_mark '.' (by decide) (.of_run (by decide) fun property =>
    .of_closing (.of_some _)) (.of_closing (.of_some ⟨String.ofList key,none⟩)) (fun _ => rfl)
      fun text first => ?_
  dsimp only
  split
  · exact absurd rfl first
  · rfl

theorem tag_format : Tag Alone format? :=
  .of_after (by decide) (.of_run (by decide) fun key => .of_after (by decide) (.of_run (by decide)
    fun style => .of_brace (.of_some _)))

/-- A format tag has one opening brace, its first character. -/
theorem format?_raw {value : FormatTag} (reads : format? text = some (value,rest)) :
    ∃ others, text = '\x7b' :: others ++ rest ∧ '\x7b' ∉ others := by
  obtain ⟨left,begins,reads⟩ := Option.bind_eq_some_iff.mp reads
  obtain ⟨⟨key,left'⟩,keyed,reads⟩ := Option.bind_eq_some_iff.mp reads
  obtain ⟨left'',colon,reads⟩ := Option.bind_eq_some_iff.mp reads
  obtain ⟨⟨style,left₃⟩,styled,reads⟩ := Option.bind_eq_some_iff.mp reads
  obtain ⟨left₄,closes,reads⟩ := Option.bind_eq_some_iff.mp reads
  obtain ⟨-,rfl⟩ := Prod.mk.inj (Option.some.inj reads)
  obtain ⟨rfl,-,keys⟩ := of_run? keyed
  obtain ⟨rfl,-,styles⟩ := of_run? styled
  have unopened (accept : Char → Bool) {run : List Char} (refused : accept '\x7b' = false)
      (each : ∀ c ∈ run, accept c = true) : '\x7b' ∉ run :=
    fun member => absurd (each _ member) (by simp [refused])
  refine ⟨"format:".toList ++ key ++ [':'] ++ style ++ ['\x7d'],?_,?_⟩
  · rw [eq_append_of_after? begins,eq_append_of_after? colon,eq_append_of_after? closes]
    simp
  · simp [unopened isKeyChar (by decide) keys,
      unopened (fun c => isWord c || c == '-') (by decide) styles]

theorem tag_conditional : Tag (occursIn "\x7b/if\x7d".toList · = true) conditional? := by
  refine .of_after (by decide) (.of_until fun head => ?_)
  dsimp only
  split
  · next blank _ _ =>
    by_cases blank : isBlank blank = true
    · simp only [blank,if_true]
      exact .of_cut _ _
    · simp only [blank]
      exact .of_none
  · exact .of_none

theorem tag_loop : Tag (occursIn "\x7b/each\x7d".toList · = true) loop? :=
  .of_after (by decide) (.of_blanks (.of_run (by decide) fun key => .of_blanks (.of_after (by decide)
    (.of_blanks (.of_run (by decide) fun item => .of_brace (.of_cut _ _))))))

/-- What stands between the braces of a placeholder. -/
structure IsKey (key : List Char) : Prop where
  some : key ≠ []
  unopened : '\x7b' ∉ key
  unclosed : '\x7d' ∉ key
  unmarked : ∀ c ∈ key.head?, c ∉ ['%','#','/']

private theorem placeholder?_cons (c : Char) (left : List Char) :
    placeholder? ('\x7b' :: c :: left) = if c == '%' || c == '#' || c == '/' then none else
      run? (fun c => c != '\x7b' && c != '\x7d') (c :: left) >>= fun pair =>
        after? ['\x7d'] pair.2 >>= fun rest => some (⟨String.ofList (trim pair.1)⟩,rest) := rfl

private theorem marked_iff (c : Char) : (c == '%' || c == '#' || c == '/') = true ↔
    c ∈ ['%','#','/'] := by
  simp [or_assoc]

private theorem isKey_of_placeholder? {value : Placeholder}
    (reads : placeholder? text = some (value,rest)) : ∃ key, IsKey key ∧
      text = '\x7b' :: key ++ '\x7d' :: rest ∧ value = ⟨String.ofList (trim key)⟩ := by
  obtain ⟨left,begins,later⟩ := Option.bind_eq_some_iff.mp reads
  obtain rfl := eq_append_of_after? begins
  cases left with
  | nil => exact nomatch later
  | cons c left =>
    rw [List.singleton_append,placeholder?_cons] at reads
    split at reads
    · exact nomatch reads
    · next plain =>
      obtain ⟨⟨key,after⟩,runs,reads⟩ := Option.bind_eq_some_iff.mp reads
      obtain ⟨tail,closes,reads⟩ := Option.bind_eq_some_iff.mp reads
      obtain ⟨rfl,rfl⟩ := Prod.mk.inj (Option.some.inj reads)
      obtain ⟨split,some,inside⟩ := of_run? runs
      refine ⟨key,⟨some,fun member => ?_,fun member => ?_,fun d first => ?_⟩,?_,rfl⟩
      · exact absurd (inside _ member) (by decide)
      · exact absurd (inside _ member) (by decide)
      · obtain ⟨others,rfl⟩ := List.head?_eq_some_iff.mp first
        obtain ⟨rfl,-⟩ := List.cons.inj (split.trans (List.cons_append ..))
        exact (marked_iff c).not.mp plain
      · have after_eq : after = '\x7d' :: tail := eq_append_of_after? closes
        rw [split,after_eq]
        rfl

private theorem placeholder?_of_isKey {key : List Char} (isKey : IsKey key) (rest : List Char) :
    placeholder? ('\x7b' :: key ++ '\x7d' :: rest) = some (⟨String.ofList (trim key)⟩,rest) := by
  obtain ⟨some,unopened,unclosed,unmarked⟩ := isKey
  obtain ⟨c,others,rfl⟩ := List.exists_cons_of_ne_nil some
  have each : (c :: others).all (fun c => c != '\x7b' && c != '\x7d') = true :=
    List.all_eq_true.mpr fun d member => by
      simp only [Bool.and_eq_true,bne_iff_ne]
      exact ⟨fun same => unopened (same ▸ member),fun same => unclosed (same ▸ member)⟩
  have halts : Halts (fun c => c != '\x7b' && c != '\x7d') ('\x7d' :: rest) := .cons (by decide) rest
  have runs := run?_eq (fun c => c != '\x7b' && c != '\x7d') (c :: others ++ '\x7d' :: rest)
  rw [takeWhile_run each halts,dropWhile_run each halts] at runs
  rw [List.cons_append,List.cons_append,placeholder?_cons,if_neg ((marked_iff c).not.mpr (unmarked c rfl)),
    ← List.cons_append,runs]
  rfl

theorem placeholder?_eq_some_iff {value : Placeholder} : placeholder? text = some (value,rest) ↔
    ∃ key, IsKey key ∧ text = '\x7b' :: key ++ '\x7d' :: rest ∧ value = ⟨String.ofList (trim key)⟩ := by
  refine ⟨isKey_of_placeholder?,?_⟩
  rintro ⟨key,isKey,rfl,rfl⟩
  exact placeholder?_of_isKey isKey rest

theorem tag_placeholder : Tag Alone placeholder? where
  proper {text value rest} reads := by
    obtain ⟨key,-,rfl,-⟩ := placeholder?_eq_some_iff.mp reads
    exact ⟨'\x7b' :: key ++ ['\x7d'],by simp,by simp⟩
  opens {text} read := by
    obtain ⟨⟨value,rest⟩,reads⟩ := Option.isSome_iff_exists.mp read
    obtain ⟨key,-,split,-⟩ := placeholder?_eq_some_iff.mp reads
    exact ⟨_,split⟩
  bounded {inside tail other} closed _ read := by
    obtain ⟨⟨value,rest⟩,reads⟩ := Option.isSome_iff_exists.mp read
    obtain ⟨key,isKey,split,-⟩ := placeholder?_eq_some_iff.mp reads
    have closed' : '\x7d' ∉ '\x7b' :: key := by simpa using isKey.unclosed
    obtain ⟨rfl,-⟩ := eq_of_append_cons closed closed' split
    exact Option.isSome_of_mem (placeholder?_of_isKey isKey other)

end MailMerge.Directive
