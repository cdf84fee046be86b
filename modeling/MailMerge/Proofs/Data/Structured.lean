import MailMerge.Data.Display
import MailMerge.Data.Path
import MailMerge.Data.Text
import MailMerge.Proofs.Fault
import MailMerge.Proofs.Number.Numeral
import MailMerge.Proofs.Text.Search

/-! Structured data: what a text of data can give, and what is read from one. It has no dates, and the
keys of its mappings are texts, so each of its values can be put into a document. What a path leads to
stands in the data. Where no key of the data has a dot, a path is nothing but its segments, and looking up
the first part of it and then the rest of it in what was found is looking up all of it.
-/
namespace MailMerge

/-- A value stands somewhere in another one. -/
inductive Value.Holds : Value → Value → Prop
  | self (v : Value) : Holds v v
  | item {items : List Value} {item part : Value} (member : item ∈ items) (inside : Holds item part) :
    Holds (.list items) part
  | entry {entries : List (Scalar × Value)} {key : Scalar} {value part : Value}
    (member : (key,value) ∈ entries) (inside : Holds value part) : Holds (.map entries) part

/-- A scalar of structured data. An integer in it has digits that are not too many. -/
def Scalar.IsPlain : Scalar → Prop
  | .date _ | .moment _ => False
  | .int n => Number.IsShort n
  | _ => True

/-- A key of structured data. -/
def Scalar.IsText (s : Scalar) : Prop :=
  ∃ t, s = .text t

/-- A value of structured data. -/
inductive Value.Structured : Value → Prop
  | scalar {s : Scalar} (plain : s.IsPlain) : Structured (.scalar s)
  | list {items : List Value} (each : ∀ item ∈ items, Structured item) : Structured (.list items)
  | map {entries : List (Scalar × Value)} (keys : ∀ entry ∈ entries, entry.1.IsText)
    (each : ∀ entry ∈ entries, Structured entry.2) : Structured (.map entries)

namespace Value

variable {v part : Value}

theorem Holds.trans {inner : Value} (first : v.Holds part) (second : part.Holds inner) :
    v.Holds inner := by
  induction first with
  | self => exact second
  | item member _ ih => exact .item member (ih second)
  | entry member _ ih => exact .entry member (ih second)

/-- All that structured data holds is structured. -/
theorem Structured.of_holds (structured : v.Structured) (holds : v.Holds part) : part.Structured := by
  induction holds with
  | self => exact structured
  | item member _ ih =>
    cases structured with
    | list each => exact ih (each _ member)
  | entry member _ ih =>
    cases structured with
    | map _ each => exact ih (each _ member)

end Value

theorem Entries.mem_of_lookup {entries : List (Scalar × Value)} {key : Scalar} {v : Value}
    (found : Entries.lookup entries key = some v) : ∃ key', (key',v) ∈ entries := by
  obtain ⟨entry,first,rfl⟩ := Option.map_eq_some_iff.mp found
  exact ⟨entry.1,List.mem_of_find?_eq_some first⟩

namespace Value

/-- The value of a mapping at a key stands in it. -/
theorem holds_of_lookup {entries : List (Scalar × Value)} {key : Scalar} {v : Value}
    (found : Entries.lookup entries key = some v) : (Value.map entries).Holds v := by
  obtain ⟨key',member⟩ := Entries.mem_of_lookup found
  exact .entry member (.self v)

theorem holds_of_step {v next : Value} {segment : List Char} (found : v.step segment = some next) :
    v.Holds next := by
  unfold step at found
  split at found
  · exact holds_of_lookup found
  · next items =>
    have inside : next ∈ items := by
      split at found
      · exact List.mem_of_getElem? found
      · split at found
        · exact List.mem_of_getElem? found
        · simp at found
      · simp at found
    exact .item inside (.self next)
  · simp at found

theorem orEmpty_cases (v : Value) : v.orEmpty = .empty ∨ v.orEmpty = v := by
  unfold orEmpty
  split
  · exact Or.inl rfl
  · exact Or.inr rfl

theorem walk_cases (v : Value) (path : List (List Char)) :
    v.walk path = .empty ∨ v.Holds (v.walk path) := by
  induction path generalizing v with
  | nil =>
    rw [walk]
    refine v.orEmpty_cases.imp_right fun same => ?_
    rw [same]
    exact .self v
  | cons segment path ih =>
    rw [walk]
    split
    · next next found => exact (ih next).imp_right (holds_of_step found).trans
    · exact Or.inl rfl

/-- What a path leads to stands in the data, or is the empty text. -/
theorem resolve_cases (v : Value) (path : String) :
    v.resolve path = .empty ∨ v.Holds (v.resolve path) := by
  unfold resolve
  split
  · exact Or.inl rfl
  · dsimp only
    split
    · next entries _ =>
      split
      · next part found =>
        refine part.orEmpty_cases.imp_right fun same => ?_
        rw [same]
        exact holds_of_lookup found
      · exact walk_cases _ _
    · exact walk_cases _ _

theorem Structured.resolve {v : Value} (structured : v.Structured) (path : String) :
    (v.resolve path).Structured := by
  rcases v.resolve_cases path with same | holds
  · rw [same]
    exact .scalar trivial
  · exact structured.of_holds holds

end Value

namespace Json
open Value

theorem exists_scalarText {s : Scalar} (plain : s.IsPlain) : ∃ text, scalarText s = .ok text := by
  cases s with
  | date | moment => exact plain.elim
  | int n =>
    rw [scalarText,Number.digits_of_isShort plain]
    exact ⟨_,rfl⟩
  | _ => exact ⟨_,rfl⟩

mutual

theorem exists_compact : (v : Value) → v.Structured → ∃ text, compact v = .ok text
  | .scalar s, structured => by
    cases structured with
    | scalar plain => exact exists_scalarText plain
  | .list items, structured => by
    cases structured with
    | list each =>
      obtain ⟨texts,written⟩ := exists_compactItems items each
      exact ⟨_,by simp only [compact,written]; rfl⟩
  | .map entries, structured => by
    cases structured with
    | map keys each =>
      obtain ⟨texts,written⟩ := exists_compactEntries entries keys each
      exact ⟨_,by simp only [compact,written]; rfl⟩

theorem exists_compactItems : (items : List Value) → (∀ item ∈ items, item.Structured) →
    ∃ texts, compactItems items = .ok texts
  | [], _ => ⟨[],rfl⟩
  | item :: items, each => by
    obtain ⟨here,rest⟩ := List.forall_mem_cons.mp each
    obtain ⟨text,written⟩ := exists_compact item here
    obtain ⟨texts,written'⟩ := exists_compactItems items rest
    exact ⟨_,by simp only [compactItems,written,written']; rfl⟩

theorem exists_compactEntries : (entries : List (Scalar × Value)) →
    (∀ entry ∈ entries, entry.1.IsText) → (∀ entry ∈ entries, entry.2.Structured) →
      ∃ texts, compactEntries entries = .ok texts
  | [], _, _ => ⟨[],rfl⟩
  | (key,item) :: entries, keys, each => by
    obtain ⟨⟨name,rfl⟩,more⟩ := List.forall_mem_cons.mp keys
    obtain ⟨here,rest⟩ := List.forall_mem_cons.mp each
    obtain ⟨text,written⟩ := exists_compact item here
    obtain ⟨texts,written'⟩ := exists_compactEntries entries more rest
    exact ⟨_,by simp only [compactEntries,keyText,written,written']; rfl⟩

end

end Json

/-- Every value of structured data has a text. -/
theorem Value.Structured.exists_display {v : Value} (structured : v.Structured) :
    ∃ text, v.display = .ok text := by
  unfold display
  split
  · split
    · exact ⟨_,rfl⟩
    · exact ⟨_,rfl⟩
    · cases structured with
      | scalar plain =>
        rw [Number.digits_of_isShort plain]
        exact ⟨_,rfl⟩
    · split <;> exact ⟨_,rfl⟩
    · exact ⟨_,rfl⟩
  · exact Json.exists_compact v structured

end MailMerge

namespace MailMerge
open Value

theorem Entries.forall_mem_insert {entries : List (Scalar × Value)} {key : Scalar} {value : Value}
    {holds : Scalar × Value → Prop} (each : ∀ entry ∈ entries, holds entry) (new : holds (key,value))
    (replaced : ∀ old, holds old → holds (old.1,value)) :
    ∀ entry ∈ Entries.insert entries key value, holds entry := by
  intro entry member
  unfold insert at member
  split at member
  · obtain ⟨old,listed,rfl⟩ := List.mem_map.mp member
    split
    · exact replaced old (each old listed)
    · exact each old listed
  · rcases List.mem_append.mp member with listed | last
    · exact each entry listed
    · rw [List.mem_singleton.mp last]
      exact new

namespace Json

/-- The entries of a mapping that is being read. -/
private def Fit (entries : List (Scalar × Value)) : Prop :=
  ∀ entry ∈ entries, entry.1.IsText ∧ entry.2.Structured

private theorem Fit.map {entries : List (Scalar × Value)} (fit : Fit entries) :
    (Value.map entries).Structured :=
  .map (fun entry member => (fit entry member).1) fun entry member => (fit entry member).2

private theorem structured_literal : ∀ literal ∈ literals, literal.2.Structured := by
  simp only [literals,List.forall_mem_cons]
  exact ⟨.scalar trivial,.scalar trivial,.scalar trivial,.scalar trivial,.scalar trivial,
    .scalar trivial,by simp⟩

private theorem structured_readNumber {c next : Cursor} {v : Value}
    (ok : readNumber c = .ok (v,next)) : v.Structured := by
  unfold readNumber at ok
  split at ok
  · simp [Cursor.fail] at ok
  · split at ok
    · next reading =>
      obtain ⟨rfl,-⟩ := Prod.mk.inj (Except.ok.inj ok)
      exact .scalar (Number.isShort_of_readInt? reading)
    · simp [Cursor.fail] at ok
  · split at ok
    · obtain ⟨rfl,-⟩ := Prod.mk.inj (Except.ok.inj ok)
      exact .scalar trivial
    · simp [Cursor.fail] at ok

/-- Values, entries and items, as each reader calls the others. -/
private theorem structured_read (fuel : Nat) :
    (∀ {c next : Cursor} {v : Value}, readValue fuel c = .ok (v,next) → v.Structured) ∧
    (∀ {c next : Cursor} {entries : List (Scalar × Value)} {v : Value}, Fit entries →
      readMembers fuel c entries = .ok (v,next) → v.Structured) ∧
    ∀ {c next : Cursor} {items : List Value} {v : Value}, (∀ item ∈ items, item.Structured) →
      readItems fuel c items = .ok (v,next) → v.Structured := by
  induction fuel with
  | zero => simp [readValue,readMembers,readItems,Cursor.fail]
  | succ fuel ih =>
    obtain ⟨value,members,items⟩ := ih
    refine ⟨?_,?_,?_⟩
    · intro c next v ok
      unfold readValue at ok
      split at ok
      · obtain ⟨⟨s,after⟩,-,ok⟩ := exists_of_bind_eq_ok ok
        obtain ⟨rfl,-⟩ := Prod.mk.inj (Except.ok.inj ok)
        exact .scalar trivial
      · dsimp only at ok
        split at ok
        · obtain ⟨rfl,-⟩ := Prod.mk.inj (Except.ok.inj ok)
          exact Fit.map (by simp [Fit])
        · exact members (by simp [Fit]) ok
      · dsimp only at ok
        split at ok
        · obtain ⟨rfl,-⟩ := Prod.mk.inj (Except.ok.inj ok)
          exact .list (by simp)
        · exact items (by simp) ok
      · split at ok
        · next name literal found =>
          obtain ⟨rfl,-⟩ := Prod.mk.inj (Except.ok.inj ok)
          exact structured_literal _ (List.mem_of_find?_eq_some found)
        · exact structured_readNumber ok
    · intro c next entries v fit ok
      unfold readMembers at ok
      split at ok
      · obtain ⟨⟨name,after⟩,-,ok⟩ := exists_of_bind_eq_ok ok
        dsimp only at ok
        split at ok
        · obtain ⟨⟨part,rest⟩,read,ok⟩ := exists_of_bind_eq_ok ok
          have fit' : Fit (Entries.insert entries (.text name) part) :=
            Entries.forall_mem_insert fit ⟨⟨name,rfl⟩,value read⟩ fun _ old => ⟨old.1,value read⟩
          dsimp only at ok
          split at ok
          · obtain ⟨rfl,-⟩ := Prod.mk.inj (Except.ok.inj ok)
            exact fit'.map
          · exact members fit' ok
          · simp [Cursor.fail] at ok
        · simp [Cursor.fail] at ok
      · simp [Cursor.fail] at ok
    · intro c next items' v each ok
      unfold readItems at ok
      obtain ⟨⟨part,rest⟩,read,ok⟩ := exists_of_bind_eq_ok ok
      have more : ∀ item ∈ part :: items', item.Structured :=
        List.forall_mem_cons.mpr ⟨value read,each⟩
      dsimp only at ok
      split at ok
      · obtain ⟨rfl,-⟩ := Prod.mk.inj (Except.ok.inj ok)
        exact .list fun item member => more item (List.mem_reverse.mp member)
      · exact items more ok
      · simp [Cursor.fail] at ok

theorem structured_of_read {text : List Char} {v : Value} (ok : Json.read text = .ok v) :
    v.Structured := by
  unfold Json.read at ok
  split at ok
  · simp at ok
  · dsimp only at ok
    obtain ⟨⟨part,rest⟩,read,ok⟩ := exists_of_bind_eq_ok ok
    dsimp only at ok
    split at ok
    · obtain rfl := Except.ok.inj ok
      exact (structured_read _).1 read
    · simp [Cursor.fail] at ok

end Json

/-- The data written in a string is structured. -/
theorem DataText.structured_of_parse {text : String} {data : Value}
    (parsed : DataText.parse text = .ok data) : data.Structured := by
  unfold parse at parsed
  split at parsed
  · obtain rfl := Except.ok.inj parsed
    exact .map (by simp) (by simp)
  · obtain ⟨v,read,parsed⟩ := exists_of_bind_eq_ok parsed
    have same : v = data := by
      unfold requireMap at parsed
      split at parsed
      · exact Except.ok.inj parsed
      · simp at parsed
    unfold readJson at read
    split at read
    · next v' found =>
      obtain rfl := Except.ok.inj read
      exact same ▸ Json.structured_of_read found
    · split at read <;> simp at read

end MailMerge

namespace MailMerge.Value
open Text

/-- A value in which no key of a mapping has a dot, at any depth. -/
inductive Undotted : Value → Prop
  | scalar (s : Scalar) : Undotted (.scalar s)
  | list {items : List Value} (each : ∀ item ∈ items, Undotted item) : Undotted (.list items)
  | map {entries : List (Scalar × Value)}
    (keys : ∀ entry ∈ entries, ∀ key, entry.1 = .text key → '.' ∉ key.toList)
    (each : ∀ entry ∈ entries, Undotted entry.2) : Undotted (.map entries)

variable {v part : Value} {path : String}

theorem Undotted.of_holds (undotted : v.Undotted) (holds : v.Holds part) : part.Undotted := by
  induction holds with
  | self => exact undotted
  | item member _ ih =>
    cases undotted with
    | list each => exact ih (each _ member)
  | entry member _ ih =>
    cases undotted with
    | map _ each => exact ih (each _ member)

theorem Undotted.resolve (undotted : v.Undotted) (path : String) : (v.resolve path).Undotted := by
  rcases v.resolve_cases path with same | holds
  · rw [same]
    exact .scalar _
  · exact undotted.of_holds holds

/-- A key that is found is one of the keys. -/
theorem mem_of_get? {entries : List (Scalar × Value)} {key : String}
    (found : Entries.get? entries key = some v) : (.text key,v) ∈ entries := by
  obtain ⟨⟨key',value⟩,first,rfl⟩ := Option.map_eq_some_iff.mp found
  have same := List.find?_some first
  cases key' <;> simp [Scalar.same,Scalar.number?] at same
  exact same ▸ List.mem_of_find?_eq_some first

/-- A path is walked, for a key that equals a path with a dot does not occur. -/
theorem Undotted.resolve_eq_walk (undotted : v.Undotted) (some : path ≠ "") :
    v.resolve path = v.walk (splitOn '.' path.toList) := by
  rw [Value.resolve,if_neg (by simpa using some)]
  cases undotted with
  | scalar | list => rfl
  | map keys _ =>
    dsimp only
    split
    · next found =>
      rw [splitOn_of_notMem '.' (keys _ (mem_of_get? found) path rfl),walk,step,
        String.ofList_toList,found]
      rfl
    · rfl

private theorem walk_empty {segments : List (List Char)} (some : segments ≠ []) :
    walk .empty segments = .empty := by
  obtain ⟨segment,segments,rfl⟩ := List.exists_cons_of_ne_nil some
  rfl

theorem walk_append (v : Value) (first : List (List Char)) {rest : List (List Char)}
    (some : rest ≠ []) : v.walk (first ++ rest) = (v.walk first).walk rest := by
  induction first generalizing v with
  | nil =>
    -- a null at the seam is read as the empty text, and neither of the two has parts
    obtain ⟨segment,rest,rfl⟩ := List.exists_cons_of_ne_nil some
    rw [List.nil_append,walk]
    cases v with
    | list | map => rfl
    | scalar s => cases s <;> rfl
  | cons segment first ih =>
    rw [List.cons_append,walk,walk]
    cases v.step segment with
    | none => exact (walk_empty some).symm
    | some next => exact ih next

/-- A path of two parts leads where its second part leads from the end of the first. -/
theorem resolve_joined (undotted : v.Undotted) {p q : String} (first : p ≠ "") (second : q ≠ "") :
    v.resolve (p ++ "." ++ q) = (v.resolve p).resolve q := by
  have joined : p ++ "." ++ q ≠ "" := by simp
  have pieces : splitOn '.' (p ++ "." ++ q).toList = splitOn '.' p.toList ++ splitOn '.' q.toList := by
    rw [← splitOn_cons_append]
    simp
  calc v.resolve (p ++ "." ++ q)
    _ = v.walk (splitOn '.' p.toList ++ splitOn '.' q.toList) := by
      rw [undotted.resolve_eq_walk joined,pieces]
    _ = (v.resolve p).walk (splitOn '.' q.toList) := by
      rw [walk_append v _ (splitOn_ne_nil '.' _),undotted.resolve_eq_walk first]
    _ = (v.resolve p).resolve q := ((undotted.resolve p).resolve_eq_walk second).symm

/-- A list in a mapping, with a null, a text and a mapping in it. -/
private def nested : Value :=
  .map [(.text "a",.list [.null,.text "x",.map [(.text "b",.int 1)]])]

private theorem undotted_nested : nested.Undotted := by
  refine .map (by simp) ?_
  simp only [List.forall_mem_singleton]
  refine .list ?_
  simp only [List.forall_mem_cons]
  refine ⟨.scalar _,.scalar _,.map (by simp) ?_,nofun⟩
  simpa using .scalar _

theorem resolve_joined_nested : nested.Undotted ∧ "a.-1" ≠ "" ∧ "b" ≠ "" ∧
    nested.resolve ("a.-1" ++ "." ++ "b") = (nested.resolve "a.-1").resolve "b" ∧
      (nested.resolve "a.-1").resolve "b" = .int 1 :=
  ⟨undotted_nested,by decide,by decide,resolve_joined undotted_nested (by decide) (by decide),by rfl⟩

end MailMerge.Value
