import MailMerge.Loop
import MailMerge.Proofs.Generation.Placeholders
import MailMerge.Proofs.Table.Grid

/-! Loops. A loop is an opening tag with a key and the name of the item, the template, and the closing tag,
which does not occur in the template. In the template a name in braces with a field of the item behind a dot
gives way to what the item reads there, every other character stays, and what was put in is not looked at
again. Where the key leads to a list that holds something, the loop gives way to its template for one item
after the other, and the text around it is kept.
-/
namespace MailMerge.Directive
open Text

variable {text rest name : List Char}

theorem itemField?_field {field : List Char} (isRun : IsRun isWord field) (rest : List Char) :
    itemField? name ('\x7b' :: name ++ '.' :: field ++ '\x7d' :: rest) =
      some (String.ofList field,rest) := by
  have begins := after?_append ('\x7b' :: name ++ ['.']) (field ++ '\x7d' :: rest)
  have closes := after?_append ['\x7d'] rest
  have halts : Halts isWord ('\x7d' :: rest) := .cons (by decide) rest
  have split : '\x7b' :: name ++ '.' :: field ++ '\x7d' :: rest =
      '\x7b' :: name ++ ['.'] ++ (field ++ '\x7d' :: rest) := by simp
  rw [split,itemField?,begins]
  simp only [Option.bind_eq_bind,Option.bind_some,run?_append isRun halts]
  exact congrArg (·.bind fun tail => some (String.ofList field,tail)) closes

theorem itemField?_eq_some_iff {value : String} : itemField? name text = some (value,rest) ↔
    ∃ field, IsRun isWord field ∧ text = '\x7b' :: name ++ '.' :: field ++ '\x7d' :: rest ∧
      value = String.ofList field := by
  constructor
  · intro reads
    obtain ⟨left,begins,reads⟩ := Option.bind_eq_some_iff.mp reads
    obtain ⟨⟨field,left'⟩,runs,reads⟩ := Option.bind_eq_some_iff.mp reads
    obtain ⟨left'',closes,reads⟩ := Option.bind_eq_some_iff.mp reads
    obtain ⟨rfl,rfl⟩ := Prod.mk.inj (Option.some.inj reads)
    obtain ⟨rfl,isRun⟩ := exists_of_run? runs
    refine ⟨field,isRun,?_,rfl⟩
    rw [eq_append_of_after? begins,eq_append_of_after? closes]
    simp
  · rintro ⟨field,isRun,rfl,rfl⟩
    exact itemField?_field isRun rest

theorem proper_itemField (name : List Char) : Proper (itemField? name) := by
  intro text value rest reads
  obtain ⟨field,-,split,-⟩ := itemField?_eq_some_iff.mp reads
  exact ⟨'\x7b' :: name ++ '.' :: field ++ ['\x7d'],by simp,by simp [split]⟩

/-- A text that is a loop. -/
structure IsBlock (l : Loop) (raw : List Char) : Prop where
  key : IsRun isKeyChar l.key.toList
  item : IsRun isWord l.item.toList
  raw_eq : ∃ a b c, IsRun isBlank a ∧ IsRun isBlank b ∧ IsRun isBlank c ∧
    raw = "\x7b#each".toList ++ a ++ l.key.toList ++ b ++ "as".toList ++ c ++ l.item.toList ++ ['\x7d'] ++
      l.template ++ "\x7b/each\x7d".toList
  unclosed : occursIn "\x7b/each\x7d".toList l.template = false

theorem isBlock_of_loop? {l : Loop} (reads : loop? text = some (l,rest)) :
    ∃ raw, IsBlock l raw ∧ text = raw ++ rest := by
  obtain ⟨t₁,begins,reads⟩ := Option.bind_eq_some_iff.mp reads
  obtain ⟨t₂,blank₁,reads⟩ := Option.bind_eq_some_iff.mp reads
  obtain ⟨⟨key,t₃⟩,keyed,reads⟩ := Option.bind_eq_some_iff.mp reads
  obtain ⟨t₄,blank₂,reads⟩ := Option.bind_eq_some_iff.mp reads
  obtain ⟨t₅,word,reads⟩ := Option.bind_eq_some_iff.mp reads
  obtain ⟨t₆,blank₃,reads⟩ := Option.bind_eq_some_iff.mp reads
  obtain ⟨⟨item,t₇⟩,named,reads⟩ := Option.bind_eq_some_iff.mp reads
  obtain ⟨t₈,closes,reads⟩ := Option.bind_eq_some_iff.mp reads
  obtain ⟨⟨template,t₉⟩,cut,reads⟩ := Option.bind_eq_some_iff.mp reads
  obtain ⟨rfl,rfl⟩ := Prod.mk.inj (Option.some.inj reads)
  obtain ⟨a,rfl,isRun₁⟩ := exists_of_blanks? blank₁
  obtain ⟨rfl,isKey⟩ := exists_of_run? keyed
  obtain ⟨b,rfl,isRun₂⟩ := exists_of_blanks? blank₂
  obtain ⟨c,rfl,isRun₃⟩ := exists_of_blanks? blank₃
  obtain ⟨rfl,isItem⟩ := exists_of_run? named
  refine ⟨_,⟨by simpa using isKey,by simpa using isItem,
    ⟨a,b,c,isRun₁,isRun₂,isRun₃,rfl⟩,occursIn_of_cut? (by decide) cut⟩,?_⟩
  rw [eq_append_of_after? begins,eq_append_of_after? word,eq_append_of_after? closes,
    eq_append_of_cut? cut]
  simp

/-- A loop that the lexer finds is the first one, and nothing takes precedence over it. -/
theorem loop_of_scan {f : Found Lexeme} {l : Loop} (member : f ∈ scan text) (loop : f.value = .loop l) :
    (Silent conditional? text ∧ Silent table? text ∧ Silent chart? text ∧ Silent image? text ∧
      Silent format? text) ∧ first? loop? text = some ⟨l,f.start,f.raw⟩ := by
  have other {γ : Type} {found : List (Found γ)} {lexeme : γ → Lexeme}
      (never : ∀ value, lexeme value ≠ .loop l) : f ∉ found.map (·.map lexeme) := by
    intro listed
    obtain ⟨g,-,rfl⟩ := List.mem_map.mp listed
    exact never g.value loop
  unfold scan at member
  split at member
  · exact absurd member (other nofun)
  · next conditional =>
    unfold scanBlocks at member
    split at member
    · exact absurd member (@other _ [_] _ nofun)
    · next table =>
      split at member
      · exact absurd member (@other _ [_] _ nofun)
      · next chart =>
        split at member
        · exact absurd member (@other _ [_] _ nofun)
        · next image =>
          split at member
          · exact absurd member (other nofun)
          · next format =>
            split at member
            · next g first =>
              obtain rfl := List.mem_singleton.mp member
              obtain rfl : g.value = l := by simpa [Found.map] using loop
              exact ⟨⟨(all_eq_nil_iff tag_conditional.proper).mp conditional,
                (first?_eq_none_iff tag_table.proper).mp table,
                (first?_eq_none_iff tag_chart.proper).mp chart,
                (first?_eq_none_iff tag_image.proper).mp image,
                (all_eq_nil_iff tag_format.proper).mp format⟩,first⟩
            · exact absurd member (other nofun)

end MailMerge.Directive

namespace MailMerge.Loop
open Directive Text

/-- A template and what it is for one item. -/
inductive Renders (name : List Char) (item : Value) : List Char → List Char → Prop
  | nil : Renders name item [] []
  | keep {c : Char} {rest out : List Char} (plain : ∀ field after, IsRun isWord field →
      c :: rest ≠ '\x7b' :: name ++ '.' :: field ++ '\x7d' :: after)
    (more : Renders name item rest out) : Renders name item (c :: rest) (c :: out)
  | fill {field rest out : List Char} {new : String} (isRun : IsRun isWord field)
    (reads : Table.Reads item (.text (String.ofList field)) new) (more : Renders name item rest out) :
    Renders name item ('\x7b' :: name ++ '.' :: field ++ '\x7d' :: rest) (new.toList ++ out)

variable {name text out : List Char} {item : Value}

theorem plain_iff {c : Char} {rest : List Char} : (∀ field after, IsRun isWord field →
    c :: rest ≠ '\x7b' :: name ++ '.' :: field ++ '\x7d' :: after) ↔
      itemField? name (c :: rest) = none := by
  rw [Option.eq_none_iff_forall_not_mem]
  constructor
  · rintro plain ⟨value,after⟩ reads
    obtain ⟨field,isRun,split,-⟩ := itemField?_eq_some_iff.mp reads
    exact plain field after isRun split
  · intro silent field after isRun split
    exact silent _ (itemField?_eq_some_iff.mpr ⟨field,isRun,split,rfl⟩)

/-- What is found are the fields that are filled in. -/
theorem Renders.shown {start : Nat} {found : List (Found String)} (renders : Renders name item text out)
    (finds : Finds (itemField? name) start text found) :
    ∀ f ∈ found, ∃ new, Table.Reads item (.text f.value) new := by
  induction finds generalizing out with
  | nil => simp
  | @pass start c rest found silent more ih =>
    generalize same : c :: rest = text at renders
    cases renders with
    | nil => exact nomatch same
    | keep _ later =>
      obtain ⟨rfl,rfl⟩ := List.cons.inj same
      exact ih later
    | fill isRun =>
      exact absurd same (plain_iff.mpr silent _ _ isRun)
  | @read start value raw rest found some reads more ih =>
    generalize same : raw ++ rest = text at renders
    rw [same] at reads
    cases renders with
    | nil =>
      have nothing : itemField? name [] = none := Proper.nil (proper_itemField name)
      exact nomatch nothing.symm.trans reads
    | keep plain => exact nomatch reads.symm.trans (plain_iff.mp plain)
    | @fill field rest' out' new isRun reads' later =>
      have again := @itemField?_field name _ isRun rest'
      obtain ⟨rfl,rfl⟩ := Prod.mk.inj (Option.some.inj (again.symm.trans reads))
      exact List.forall_mem_cons.mpr ⟨⟨new,reads'⟩,ih later⟩

theorem Renders.unique {out' : List Char} (renders : Renders name item text out)
    (renders' : Renders name item text out') : out' = out := by
  induction renders generalizing out' with
  | nil =>
    generalize same : [] = text at renders'
    cases renders' with
    | nil => rfl
    | keep => exact nomatch same
    | fill => exact nomatch same
  | @keep c rest out plain more ih =>
    generalize same : c :: rest = text at renders'
    cases renders' with
    | nil => exact nomatch same
    | keep _ more' =>
      obtain ⟨rfl,rfl⟩ := List.cons.inj same
      exact congrArg _ (ih more')
    | fill isRun => exact absurd same (plain _ _ isRun)
  | @fill field rest out new isRun reads more ih =>
    generalize same : '\x7b' :: name ++ '.' :: field ++ '\x7d' :: rest = text at renders'
    cases renders' with
    | nil => exact nomatch same
    | keep plain => exact absurd same.symm (plain _ _ isRun)
    | @fill field' rest' out' new' isRun' reads' more' =>
      have first := @itemField?_field name _ isRun rest
      rw [same,itemField?_field isRun'] at first
      obtain ⟨same_field,rfl⟩ := Prod.mk.inj (Option.some.inj first)
      rw [← same_field] at reads
      obtain rfl := Table.reads_unique item reads reads'
      exact congrArg _ (ih more')

/-- Substitution for the fields that are found renders a template. -/
theorem renders_of_finds {start : Nat} {found : List (Found String)} {texts : Found String → List Char}
    (finds : Finds (itemField? name) start text found)
    (given : ∀ f ∈ found, ∃ new : String, Table.Reads item (.text f.value) new ∧ texts f = new.toList) :
    Renders name item text (substitute.go start text (found.map fun f => (f,texts f))) := by
  induction finds with
  | nil => exact .nil
  | pass silent more ih =>
    rw [more.go_pass (List.Subset.refl _)]
    exact .keep (plain_iff.mpr silent) (ih given)
  | @read start value raw rest found some reads more ih =>
    obtain ⟨⟨new,reads',here⟩,later⟩ := List.forall_mem_cons.mp given
    obtain ⟨field,isRun,split,rfl⟩ := itemField?_eq_some_iff.mp reads
    rw [List.map_cons,go_read,here,split]
    exact .fill isRun reads' (ih later)

theorem reads_map_iff {entries : List (Scalar × Value)} {column : Scalar} {text : String} :
    Table.Reads (.map entries) column text ↔
      ((Entries.lookup entries column).getD .null).display = .ok text := by
  constructor
  · rintro (⟨found,-,shown⟩ | found | lacking | noMap)
    · rw [found]
      exact shown
    · rw [found]
      rfl
    · rw [lacking]
      rfl
    · exact absurd rfl (noMap entries)
  · intro shown
    cases found : Entries.lookup entries column with
    | none =>
      rw [found] at shown
      exact Except.ok.inj shown ▸ .missing found
    | some v =>
      rw [found] at shown
      by_cases null : v = .null
      · subst null
        exact Except.ok.inj shown ▸ .null found
      · exact .entry found null shown

theorem fieldText_eq_ok_iff {field : String} {new : List Char} : fieldText item field = .ok new ↔
    ∃ text : String, Table.Reads item (.text field) text ∧ new = text.toList := by
  cases item with
  | scalar | list =>
    constructor
    · intro ok
      exact ⟨"",.other nofun,(Except.ok.inj ok).symm⟩
    · rintro ⟨text,⟨⟩,rfl⟩
      rfl
  | map entries =>
    have shows {v : Value} : (do
        let text ← v.display
        return text.toList) = Except.ok new ↔ ∃ text : String, v.display = .ok text ∧ new = text.toList := by
      cases v.display with
      | error fault => exact iff_of_false nofun (by simp)
      | ok text => simp [bind,Except.bind,pure,Except.pure,eq_comm]
    rw [fieldText,shows]
    exact exists_congr fun text => and_congr_left fun _ => reads_map_iff.symm

/-- An item of structured data reads as some text at every field. -/
theorem exists_reads (structured : item.Structured) (field : String) :
    ∃ text, Table.Reads item (.text field) text := by
  cases item with
  | scalar | list => exact ⟨"",.other nofun⟩
  | map entries =>
    obtain ⟨text,-,reads⟩ := Table.exists_reads structured (.text field)
    exact ⟨text,reads⟩

private theorem exists_renderItem {name : String} {template : List Char}
    (shown : ∀ f ∈ all (itemField? name.toList) template, ∃ new, Table.Reads item (.text f.value) new) :
    ∃ out, renderItem template name item = .ok out ∧ Renders name.toList item template out := by
  let texts (f : Found String) : List Char := ((fieldText item f.value).toOption).getD []
  have given : ∀ f ∈ all (itemField? name.toList) template, ∃ new : String,
      Table.Reads item (.text f.value) new ∧ fieldText item f.value = .ok (texts f) ∧
        texts f = new.toList := by
    intro f member
    obtain ⟨new,reads⟩ := shown f member
    have read := fieldText_eq_ok_iff.mpr ⟨new,reads,rfl⟩
    have same : texts f = new.toList := by
      simp only [texts,read]
      rfl
    exact ⟨new,reads,same ▸ read,same⟩
  have fields : (all (itemField? name.toList) template).mapM (fun found => do
      let text ← fieldText item found.value
      return (found,text)) =
        .ok ((all (itemField? name.toList) template).map fun f => (f,texts f)) := by
    rw [← List.filterMap_eq_map]
    refine mapM_eq_filterMap fun f member => ⟨_,rfl,?_⟩
    obtain ⟨new,-,read,-⟩ := given f member
    rw [read]
    rfl
  refine ⟨_,by rw [renderItem,fields]; rfl,renders_of_finds (finds_all (proper_itemField _) _) ?_⟩
  exact fun f member => (given f member).imp fun new holds => ⟨holds.1,holds.2.2⟩

theorem renderItem_eq_ok_iff {name : String} {template out : List Char} :
    renderItem template name item = .ok out ↔ Renders name.toList item template out := by
  have total (shown : ∀ f ∈ all (itemField? name.toList) template,
      ∃ new, Table.Reads item (.text f.value) new) :
        renderItem template name item = .ok out ↔ Renders name.toList item template out := by
    obtain ⟨out',ok,renders⟩ := exists_renderItem shown
    rw [ok]
    constructor
    · intro same
      exact Except.ok.inj same ▸ renders
    · intro renders'
      rw [renders'.unique renders]
  constructor
  · intro ok
    refine (total fun f member => ?_).mp ok
    obtain ⟨fields,read,-⟩ := exists_of_bind_eq_ok ok
    obtain ⟨pair,-,read⟩ := exists_of_mem_mapM read member
    obtain ⟨text,read,-⟩ := exists_of_bind_eq_ok read
    exact (fieldText_eq_ok_iff.mp read).imp fun new => And.left
  · intro renders
    exact (total (renders.shown (finds_all (proper_itemField _) _))).mpr renders

/-- What a loop is for the items of a list: its template for one item after the other. -/
def Repeats (l : Directive.Loop) (items : List Value) (out : List Char) : Prop :=
  ∃ outs : List (List Char), List.Forall₂ (fun item part => Renders l.item.toList item l.template part)
    items outs ∧ out = outs.flatten

variable {l : Directive.Loop} {items : List Value}

theorem render_eq_ok_iff : render l.template l.item items = .ok out ↔ Repeats l items out := by
  simp only [Repeats,← renderItem_eq_ok_iff]
  constructor
  · intro ok
    obtain ⟨outs,rendered,ok⟩ := exists_of_bind_eq_ok ok
    exact ⟨outs,mapM_eq_ok_iff.mp rendered,(Except.ok.inj ok).symm⟩
  · rintro ⟨outs,rendered,rfl⟩
    rw [render,mapM_eq_ok_iff.mpr rendered]
    rfl

/-- Structured data can be repeated. -/
theorem exists_repeats (structured : ∀ item ∈ items, item.Structured) : ∃ out, Repeats l items out := by
  have each : ∀ item ∈ items, ∃ part, renderItem l.template l.item item = .ok part ∧
      Renders l.item.toList item l.template part :=
    fun item member => exists_renderItem fun f _ => exists_reads (structured item member) f.value
  obtain ⟨outs,-,rendered⟩ := exists_mapM_eq_ok each
  exact ⟨_,outs,rendered,rfl⟩

/-- A loop over two lists, one behind the other. -/
theorem render_append (template : List Char) (name : String) (items more : List Value) :
    render template name (items ++ more) = (do
      let first ← render template name items
      let second ← render template name more
      return first ++ second) := by
  simp only [render,List.mapM_append,bind_assoc,pure_bind,List.flatten_append]

end MailMerge.Loop

namespace MailMerge.Fill
open Directive Generation

variable {setup : Setup} {s : Session} {p : NodeId} {text : List Char}

private theorem part_of_write {s' : Session} {t : Target} (wrote : t.write text setup s = .ok () s') :
    s'.part = s.part := by
  obtain ⟨-,rfl⟩ := EStateM.Result.ok.inj wrote
  rfl

/-- What the rule for loops does where there is a loop over a list that holds something. -/
private theorem loopRule_eq {l : Directive.Loop} {before raw after : List Char} {items : List Value}
    (first : first? loop? (before ++ raw ++ after) = some ⟨l,before.length,raw⟩)
    (listed : setup.data.resolve l.key = .list items) (some : items ≠ []) (t : Target) :
    loopRule t (before ++ raw ++ after) setup s = (do
      let rendered ← Generation.ofExcept (Loop.render l.template l.item items)
      t.write (before ++ rendered ++ after)
      Generation.record .loop (.text l.key) .applied
      return Step.ended .rewritten) setup s := by
  obtain ⟨item,items,rfl⟩ := List.exists_cons_of_ne_nil some
  have stop : (⟨l,before.length,raw⟩ : Found Directive.Loop).stop = (before ++ raw).length := by
    simp [Found.stop]
  have front : (before ++ raw ++ after).take before.length = before := by
    rw [List.append_assoc,List.take_left]
  simp only [loopRule,first,stop,front,List.drop_left]
  refine (bind_ok (valueAt_apply _ _ _)).trans ?_
  rw [listed]
  rfl

private theorem exists_loopRule {l : Directive.Loop} {before raw after out : List Char} {items : List Value}
    (flat : s.package.forest.Flat p)
    (first : first? loop? (before ++ raw ++ after) = some ⟨l,before.length,raw⟩)
    (listed : setup.data.resolve l.key = .list items) (some : items ≠ [])
    (repeats : Loop.Repeats l items out) : ∃ s',
      loopRule ⟨p,s.package.forest.textElements p⟩ (before ++ raw ++ after) setup s =
        .ok (.ended .rewritten) s' ∧
      s'.package.forest.paragraphText p = before ++ out ++ after ∧
        s'.outcomes = s.outcomes ++ [⟨.loop,.text l.key,.applied,"",s.part⟩] := by
  have looked := ofExcept_ok (Loop.render_eq_ok_iff.mpr repeats) setup s
  obtain ⟨s₁,wrote,text_eq,-,outcomes_eq⟩ := exists_write flat (before ++ out ++ after) setup
  obtain ⟨s₂,recorded,records⟩ := exists_record .loop (.text l.key) .applied "" setup s₁
  have outcomes_eq' := records.outcomes_eq
  rw [outcomes_eq,part_of_write wrote] at outcomes_eq'
  refine ⟨s₂,(loopRule_eq first listed some _).trans ?_,by rw [records.forest_eq,text_eq],outcomes_eq'⟩
  exact (bind_ok looked).trans ((bind_ok wrote).trans (bind_ok recorded))

/-- A loop over a list that holds something gives way to its template for one item after the other, and the
text around it is kept. -/
theorem paragraph_repeats {f : Found Lexeme} {l : Directive.Loop} {items : List Value}
    (flat : s.package.forest.Flat p) (attached : s.index.isAttached p = true)
    (member : f ∈ scan (s.package.forest.paragraphText p)) (loop : f.value = .loop l)
    (listed : setup.data.resolve l.key = .list items) (some : items ≠ []) :
    ∃ before after, s.package.forest.paragraphText p = before ++ f.raw ++ after ∧
      f.start = before.length ∧ IsBlock l f.raw ∧
      (∀ out, Loop.Repeats l items out → ∃ s', Fill.paragraph p setup s = .ok .rewritten s' ∧
        s'.package.forest.paragraphText p = before ++ out ++ after ∧
          s'.outcomes = s.outcomes ++ [⟨.loop,.text l.key,.applied,"",s.part⟩]) ∧
      ((∀ out, ¬Loop.Repeats l items out) → ∃ fault, Fill.paragraph p setup s = .error fault s) ∧
      (setup.data.Structured → ∃ out, Loop.Repeats l items out) ∧
      ∀ items more, Loop.render l.template l.item (items ++ more) = (do
        let first ← Loop.render l.template l.item items
        let second ← Loop.render l.template l.item more
        return first ++ second) := by
  obtain ⟨⟨conditional,table,chart,image,format⟩,first⟩ := loop_of_scan member loop
  have finds := finds_all tag_loop.proper (s.package.forest.paragraphText p)
  have head := (finds.firstFrom_eq tag_loop.proper).symm.trans first
  obtain ⟨before,after,split,start_eq,reads⟩ := finds.exists_place _ (List.mem_of_head? head)
  obtain ⟨raw,block,same⟩ := isBlock_of_loop? reads
  obtain rfl : raw = f.raw := (List.append_cancel_right same).symm
  replace split : s.package.forest.paragraphText p = before ++ f.raw ++ after :=
    split.trans (List.append_assoc ..).symm
  replace start_eq : f.start = before.length := start_eq.trans (Nat.zero_add _)
  have braced : '\x7b' ∈ s.package.forest.paragraphText p := by
    by_contra plain
    have nothing := (first?_eq_none_iff tag_loop.proper).mpr (tag_loop.toBraced.silent_of_plain plain)
    exact nomatch nothing.symm.trans first
  have paragraph_eq := paragraph_of_silent attached conditional braced setup
  rw [bind_apply,tryRules_of_silent table chart image format,tryRules,bind_apply,split] at paragraph_eq
  rw [split,start_eq] at first
  refine ⟨before,after,split,start_eq,block,fun out repeats => ?_,fun none => ?_,fun structured => ?_,
    Loop.render_append _ _⟩
  · obtain ⟨s',ran,text_eq,outcomes_eq⟩ := exists_loopRule flat first listed some repeats
    rw [ran] at paragraph_eq
    exact ⟨s',paragraph_eq,text_eq,outcomes_eq⟩
  · cases rendered : Loop.render l.template l.item items with
    | ok out => exact absurd (Loop.render_eq_ok_iff.mp rendered) (none out)
    | error fault =>
      rw [loopRule_eq first listed some,rendered] at paragraph_eq
      exact ⟨fault,paragraph_eq⟩
  · have each := structured.resolve l.key
    rw [listed] at each
    cases each with
    | list each => exact Loop.exists_repeats each

/-- A list of a mapping, whose first value reads like a field, and of a number. -/
private def listSetup : Setup where
  data := .map [(.text "xs",.list [.map [(.text "a",.text "\x7bx.b\x7d"),(.text "b",.null)],.int 5])]

private def listLoop : Directive.Loop :=
  ⟨"xs","x","\x7bx.a\x7d\x7bx.b\x7d\x7by\x7d,".toList⟩

private def listRaw : String :=
  "\x7b#each xs as x\x7d\x7bx.a\x7d\x7bx.b\x7d\x7by\x7d,\x7b/each\x7d"

theorem paragraph_repeats_listed : ∃ s',
    Fill.paragraph 0 listSetup { package := { forest := .line ("<" ++ listRaw ++ ">") }, index := { root := 0 } } =
        .ok .rewritten s' ∧
      s'.package.forest.paragraphText 0 = "<\x7bx.b\x7d\x7by\x7d,\x7by\x7d,>".toList := by
  let s : Session := { package := { forest := .line ("<" ++ listRaw ++ ">") } }
  have text_eq : s.package.forest.paragraphText 0 = ("<" ++ listRaw ++ ">").toList := by decide +kernel
  have scanned : scan ("<" ++ listRaw ++ ">").toList = [⟨.loop listLoop,1,listRaw.toList⟩] := by rfl
  have listed : listSetup.data.resolve "xs" =
      .list [.map [(.text "a",.text "\x7bx.b\x7d"),(.text "b",.null)],.int 5] := by rfl
  have rendered : Loop.render listLoop.template "x" [.map [(.text "a",.text "\x7bx.b\x7d"),
      (.text "b",.null)],.int 5] = .ok "\x7bx.b\x7d\x7by\x7d,\x7by\x7d,".toList := by rfl
  obtain ⟨before,after,split,start_eq,-,writes,-⟩ := @paragraph_repeats listSetup s 0 _ listLoop _
    (Forest.flat_line _) rfl (by rw [text_eq,scanned]; exact List.mem_singleton_self _) rfl listed (by simp)
  have pieces : before ++ (listRaw.toList ++ after) = ['<'] ++ (listRaw.toList ++ ['>']) := by
    rw [← List.append_assoc,← split,text_eq]
    simp
  obtain ⟨rfl,rest⟩ := List.append_inj pieces start_eq.symm
  obtain rfl := List.append_cancel_left rest
  obtain ⟨s',ran,text_eq',-⟩ := writes _ (Loop.render_eq_ok_iff.mp rendered)
  exact ⟨s',ran,text_eq'⟩

end MailMerge.Fill
