import MailMerge.Command.Run
import MailMerge.Proofs.Data.Structured
import MailMerge.Service

/-! Data that cannot be used. What is neither a mapping nor refused as data breaks the reading down, and it is
listed here what does so: an integer with more digits than are read, and bytes that are no text. The readers only go
ahead, so that such an integer stands where the reading stops.
-/
namespace MailMerge.Json
open Text

/-- A text that begins with an integer of more digits than are read. -/
def Overlong (text : List Char) : Prop :=
  ∃ sign digits rest, text = sign ++ (digits ++ rest) ∧ (sign = [] ∨ sign = ['-']) ∧
    (∀ c ∈ digits, c.isDigit = true) ∧ Number.maxIntegerDigits < digits.length

private theorem exists_of_numberLexeme? {text whole tail : List Char}
    (found : numberLexeme? text = some (whole,tail)) : ∃ sign digits rest, text = sign ++ (digits ++ rest) ∧
      whole = sign ++ digits ∧ (sign = [] ∨ sign = ['-']) ∧ digits ≠ [] ∧ ∀ c ∈ digits, c.isDigit = true := by
  unfold numberLexeme? at found
  split at found
  next sign body signed =>
  have split : text = sign ++ body ∧ (sign = [] ∨ sign = ['-']) := by
    split at signed
    · obtain ⟨rfl,rfl⟩ := Prod.mk.inj signed
      exact ⟨rfl,Or.inr rfl⟩
    · obtain ⟨rfl,rfl⟩ := Prod.mk.inj signed
      exact ⟨rfl,Or.inl rfl⟩
  extract_lets digits at found
  have cut : ∃ rest, body = digits ++ rest := by
    unfold digits
    split
    · exact ⟨_,rfl⟩
    · exact ⟨_,List.takeWhile_append_dropWhile.symm⟩
  have plain : ∀ c ∈ digits, c.isDigit = true := by
    unfold digits
    split
    · simp
    · exact fun c member => List.mem_takeWhile_imp member
  split at found
  · exact nomatch found
  next some =>
    obtain ⟨rest,body_eq⟩ := cut
    obtain ⟨same,-⟩ := Prod.mk.inj (Option.some.inj found)
    exact ⟨sign,digits,rest,body_eq ▸ split.1,same.symm,split.2,by simpa using some,plain⟩

namespace Cursor

/-- A cursor is some characters ahead of another one. -/
def Ahead (c d : Cursor) : Prop :=
  ∃ n, d = c.advance n

variable {c d e : Cursor}

theorem Ahead.refl (c : Cursor) : c.Ahead c :=
  ⟨0,rfl⟩

theorem Ahead.trans (first : c.Ahead d) (second : d.Ahead e) : c.Ahead e := by
  obtain ⟨m,rfl⟩ := first
  obtain ⟨n,rfl⟩ := second
  exact ⟨m + n,by simp [advance,List.drop_drop,Nat.add_assoc]⟩

theorem ahead_advance (c : Cursor) (n : Nat) : c.Ahead (c.advance n) :=
  ⟨n,rfl⟩

theorem ahead_skipSpace (c : Cursor) : c.Ahead c.skipSpace :=
  ⟨_,rfl⟩

end Cursor

/-- What reading from a cursor comes to. It goes ahead, or it fails; if it fails for an integer with too many
digits, then at the place where one stands. -/
def Proceeds {α : Type} (c : Cursor) : Except Failure (α × Cursor) → Prop
  | .ok (_,next) => c.Ahead next
  | .error failure => failure.cause = .longInteger →
    ∃ d, c.Ahead d ∧ failure.position = d.pos ∧ Overlong d.rest

namespace Proceeds

variable {α β : Type} {c d : Cursor}

theorem of_ok (a : α) (ahead : c.Ahead d) : Proceeds c (.ok (a,d)) :=
  ahead

theorem of_other {cause : Cause} {position : Nat} (other : cause ≠ .longInteger) :
    Proceeds c (.error ⟨cause,position⟩ : Except Failure (α × Cursor)) :=
  fun same => absurd same other

theorem of_ahead {result : Except Failure (α × Cursor)} (ahead : c.Ahead d) (proceeds : Proceeds d result) :
    Proceeds c result := by
  cases result with
  | ok found => exact ahead.trans proceeds
  | error failure =>
    intro same
    obtain ⟨e,further,place⟩ := proceeds same
    exact ⟨e,ahead.trans further,place⟩

theorem bind {first : Except Failure (α × Cursor)} {next : α × Cursor → Except Failure (β × Cursor)}
    (proceeds : Proceeds c first) (rest : ∀ a d, first = .ok (a,d) → Proceeds d (next (a,d))) :
    Proceeds c (first >>= next) := by
  cases first with
  | ok found => exact .of_ahead proceeds (rest found.1 found.2 rfl)
  | error failure => exact proceeds

end Proceeds

private theorem proceeds_readString (fuel start : Nat) (c : Cursor) (acc : List Char) :
    Proceeds c (readString fuel start c acc) := by
  induction fuel generalizing c acc with
  | zero => exact .of_other (by decide)
  | succ fuel ih =>
    have more (n : Nat) (acc : List Char) : Proceeds c (readString fuel start (c.advance n) acc) :=
      .of_ahead (c.ahead_advance n) (ih _ acc)
    unfold readString
    split
    · exact .of_other (by decide)
    · exact .of_ok _ (c.ahead_advance 1)
    · exact .of_other (by decide)
    · dsimp only
      split
      · split
        · exact more 6 _
        · split
          · exact .of_other (by decide)
          · split
            · exact more 12 _
            · exact more 6 _
      · exact .of_other (by decide)
    · split
      · exact more 2 _
      · exact .of_other (by decide)
    · split
      · exact .of_other (by decide)
      · exact more 1 _

private theorem proceeds_readNumber (c : Cursor) : Proceeds c (readNumber c) := by
  unfold readNumber
  split
  · exact .of_other (by decide)
  · next whole found =>
    split
    · exact .of_ok _ (c.ahead_advance _)
    · next unread =>
      intro _
      obtain ⟨sign,digits,rest,text_eq,rfl,signed,some,plain⟩ := exists_of_numberLexeme? found
      have decimal : ∀ x ∈ digits, isDecimal x = true := fun x member => by
        simp [isDecimal,digitValue?,plain x member]
      have long := Number.separator_or_long (List.forall_mem_nil _) (signed.imp_right .inr) some decimal unread
      refine ⟨c,.refl c,rfl,sign,digits,rest,text_eq,signed,plain,?_⟩
      simpa using long
  · split
    · exact .of_ok _ (c.ahead_advance _)
    · exact .of_other (by decide)

/-- Values, entries and items, as each reader calls the others. -/
private theorem proceeds_read (fuel : Nat) : (∀ c, Proceeds c (readValue fuel c)) ∧
    (∀ c entries, Proceeds c (readMembers fuel c entries)) ∧ ∀ c items, Proceeds c (readItems fuel c items) := by
  induction fuel with
  | zero => exact ⟨fun _ => .of_other (by decide),fun _ _ => .of_other (by decide),fun _ _ => .of_other (by decide)⟩
  | succ fuel ih =>
    obtain ⟨value,members,items⟩ := ih
    have within {α : Type} {result : Except Failure (α × Cursor)} (c : Cursor)
        (proceeds : Proceeds ((c.advance 1).skipSpace) result) : Proceeds c result :=
      .of_ahead ((c.ahead_advance 1).trans (Cursor.ahead_skipSpace _)) proceeds
    refine ⟨fun c => ?_,fun c entries => ?_,fun c found => ?_⟩
    · unfold readValue
      split
      · exact .bind (.of_ahead (c.ahead_advance 1) (proceeds_readString _ _ _ _)) fun s d _ => .of_ok _ (.refl d)
      · dsimp only
        split
        · exact within c (.of_ok _ (Cursor.ahead_advance _ 1))
        · exact within c (members _ _)
      · dsimp only
        split
        · exact within c (.of_ok _ (Cursor.ahead_advance _ 1))
        · exact within c (items _ _)
      · split
        · exact .of_ok _ (c.ahead_advance _)
        · exact proceeds_readNumber c
    · unfold readMembers
      split
      · refine .bind (.of_ahead (c.ahead_advance 1) (proceeds_readString _ _ _ _)) fun name d _ => ?_
        refine .of_ahead d.ahead_skipSpace ?_
        dsimp only
        split
        · refine .bind (within _ (value _)) fun v e _ => ?_
          refine .of_ahead e.ahead_skipSpace ?_
          dsimp only
          split
          · exact .of_ok _ (Cursor.ahead_advance _ 1)
          · exact within _ (members _ _)
          · exact .of_other (by decide)
        · exact .of_other (by decide)
      · exact .of_other (by decide)
    · unfold readItems
      refine .bind (value c) fun v d _ => ?_
      refine .of_ahead d.ahead_skipSpace ?_
      dsimp only
      split
      · exact .of_ok _ (Cursor.ahead_advance _ 1)
      · exact within _ (items _ _)
      · exact .of_other (by decide)

/-- Where a text is refused for an integer with too many digits, one stands. -/
theorem overlong_of_read {text : List Char} {position : Nat}
    (failed : Json.read text = .error ⟨.longInteger,position⟩) : Overlong (text.drop position) := by
  unfold Json.read at failed
  split at failed
  · exact nomatch failed
  · obtain failed | ⟨⟨v,next⟩,-,failed⟩ := cases_of_bind_eq_error failed
    · have proceeds := (proceeds_read (2 * text.length + 2)).1 (Cursor.skipSpace ⟨text,0⟩)
      rw [failed] at proceeds
      obtain ⟨d,ahead,rfl,long⟩ := proceeds rfl
      obtain ⟨n,rfl⟩ := (Cursor.ahead_skipSpace ⟨text,0⟩).trans ahead
      simpa [Cursor.advance] using long
    · dsimp only at failed
      split at failed
      · exact nomatch failed
      · exact nomatch failed

end Json

/-- Data was read and is a mapping, or it was refused with a fault of the data. -/
def Answered (result : Except Fault Value) : Prop :=
  (∃ entries, result = .ok (.map entries)) ∨ ∃ fault, result = .error fault ∧ fault.label = "DataError"

/-- Data is read or refused, except where the reading breaks down. -/
structure AnsweredUnless (result : Except Fault Value) (breaks : Fault → Prop) : Prop where
  answered_iff : Answered result ↔ ∀ fault, ¬ breaks fault
  broken : ∀ fault, breaks fault → result = .error fault

theorem AnsweredUnless.of_answered {result : Except Fault Value} {breaks : Fault → Prop} (answered : Answered result)
    (never : ∀ fault, ¬ breaks fault) : AnsweredUnless result breaks :=
  ⟨iff_of_true answered never,fun fault broken => absurd broken (never fault)⟩

theorem AnsweredUnless.of_broken {result : Except Fault Value} {breaks : Fault → Prop} {fault : Fault}
    (broken : breaks fault) (only : ∀ other, breaks other → other = fault) (failed : result = .error fault)
    (other : fault.label ≠ "DataError") : AnsweredUnless result breaks := by
  refine ⟨iff_of_false ?_ fun never => never fault broken,fun fault' here => only fault' here ▸ failed⟩
  intro answered
  obtain ⟨entries,ok⟩ | ⟨fault',failed',label⟩ := answered
  · exact nomatch failed.symm.trans ok
  · exact other (Except.error.inj (failed.symm.trans failed') ▸ label)

theorem AnsweredUnless.congr {result : Except Fault Value} {breaks breaks' : Fault → Prop}
    (answered : AnsweredUnless result breaks) (same : ∀ fault, breaks' fault ↔ breaks fault) :
    AnsweredUnless result breaks' := by
  obtain rfl : breaks' = breaks := funext fun fault => propext (same fault)
  exact answered

namespace DataText

/-- The reading of a text breaks down at an integer with too many digits. -/
inductive Breaks (text : List Char) : Fault → Prop
  | overlong {position : Nat} (stops : Json.read text = .error ⟨.longInteger,position⟩)
    (stands : Json.Overlong (text.drop position)) : Breaks text (.breakdown .value)

theorem Breaks.foreign {text : List Char} {fault : Fault} (broken : Breaks text fault) : fault.isOwn = false := by
  cases broken
  rfl

variable (text : String) (refuse wrong : String → Fault)

theorem answered_requireMap (v : Value) (label : ∀ word, (wrong word).label = "DataError") :
    Answered (requireMap v wrong) := by
  cases v with
  | map entries => exact Or.inl ⟨entries,rfl⟩
  | scalar s => exact Or.inr ⟨_,rfl,label _⟩
  | list items => exact Or.inr ⟨_,rfl,label _⟩

theorem answeredUnless_readJson (label : ∀ detail, (refuse detail).label = "DataError")
    (label' : ∀ word, (wrong word).label = "DataError") :
    AnsweredUnless (readJson text refuse >>= fun v => requireMap v wrong) (Breaks text.toList) := by
  unfold readJson
  split
  · next v read =>
    refine .of_answered (answered_requireMap wrong v label') fun fault broken => ?_
    obtain ⟨stops,-⟩ := broken
    exact nomatch read.symm.trans stops
  · next failure read =>
    obtain ⟨cause,position⟩ := failure
    split
    · next long =>
      obtain rfl : cause = .longInteger := by simpa using long
      exact .of_broken (.overlong read (Json.overlong_of_read read)) (fun _ broken => by cases broken; rfl) rfl
        (by decide)
    · next other =>
      refine .of_answered (Or.inr ⟨_,rfl,label _⟩) fun fault broken => ?_
      obtain ⟨stops,-⟩ := broken
      obtain ⟨rfl,-⟩ := Json.Failure.mk.inj (Except.error.inj (read.symm.trans stops))
      simp at other

/-- The data in a string. -/
theorem answeredUnless_parse (text : String) : AnsweredUnless (parse text) (Breaks text.toList) := by
  unfold parse
  split
  · next empty =>
    obtain rfl : text = "" := by simpa using empty
    refine .of_answered (Or.inl ⟨[],rfl⟩) fun fault broken => ?_
    obtain ⟨stops,sign,digits,rest,none,-,-,long⟩ := broken
    simp at none
    simp [none] at long
  · exact answeredUnless_readJson text .malformedData .dataNotObject (fun _ => rfl) fun _ => rfl

end DataText

namespace DataFile
open Text

/-- The reading of a file breaks down: a structured one, if it is a folder, is no text in the usual encoding, or
has an integer with too many digits. -/
inductive Breaks (storage : Storage) (path : String) : Fault → Prop
  | folder (structured : isStructured path = true) (found : storage.find path = .folder) :
    Breaks storage path (.breakdown .folder)
  | undecodable (structured : isStructured path = true) {data : ByteArray} (found : storage.find path = .file data)
    (unread : decode? data = none) : Breaks storage path (.breakdown .decoding)
  | overlong (structured : isStructured path = true) {data : ByteArray} {s : String}
    (found : storage.find path = .file data) (decoded : decode? data = some s) {fault : Fault}
    (broken : DataText.Breaks (uniformLines s.toList) fault) : Breaks storage path fault

theorem load_of_nothing {storage : Storage} {path : String} (absent : storage.find path = .nothing) :
    load storage path = .error (.dataNotFound path) := by
  rw [load,absent]
  rfl

section
variable {storage : Storage} {path : String} (present : (storage.find path).isSomething = true)
include present

theorem load_of_structured (structured : isStructured path = true) : load storage path =
    (text (storage.find path) >>= fun s => DataText.readJson s (.malformedDataFile path) >>=
      fun v => DataText.requireMap v (.dataFileNotObject path)) := by
  simp [load,present,structured]

theorem load_of_other (other : isStructured path = false) : load storage path =
    (matter path (storage.find path) >>= fun v => DataText.requireMap v (.dataFileNotObject path)) := by
  simp [load,present,other]

/-- The data of a file without structured text is in its front matter. -/
theorem answered_load_of_other (other : isStructured path = false) : Answered (load storage path) := by
  rw [load_of_other present other]
  cases read : matter path (storage.find path) with
  | ok v => exact DataText.answered_requireMap (.dataFileNotObject path) v fun _ => rfl
  | error fault =>
    refine Or.inr ⟨fault,rfl,?_⟩
    unfold matter at read
    dsimp only at read
    split at read
    · simp at read
    · exact Except.error.inj read ▸ rfl

end

theorem Breaks.foreign {storage : Storage} {path : String} {fault : Fault} (broken : Breaks storage path fault) :
    fault.isOwn = false := by
  cases broken with
  | folder | undecodable => rfl
  | overlong _ _ _ broken => exact broken.foreign

/-- The data in a file. -/
theorem answeredUnless_load (storage : Storage) (path : String) :
    AnsweredUnless (load storage path) (Breaks storage path) := by
  cases structured : isStructured path with
  | false =>
    have never (fault : Fault) : ¬ Breaks storage path fault := by
      intro broken
      cases broken <;> simp_all
    cases found : storage.find path with
    | nothing => exact .of_answered (Or.inr ⟨_,load_of_nothing found,rfl⟩) never
    | folder => exact .of_answered (answered_load_of_other (found ▸ rfl) structured) never
    | file data => exact .of_answered (answered_load_of_other (found ▸ rfl) structured) never
  | true =>
    cases found : storage.find path with
    | nothing =>
      refine .of_answered (Or.inr ⟨_,load_of_nothing found,rfl⟩) fun fault broken => ?_
      cases broken <;> simp_all
    | folder =>
      refine .of_broken (.folder structured found) (fun other broken => ?_) ?_ (by decide)
      · cases broken <;> simp_all
      · rw [load_of_structured (found ▸ rfl) structured,found]
        rfl
    | file data =>
      rw [load_of_structured (found ▸ rfl) structured,found]
      cases decoded : decode? data with
      | none =>
        refine .of_broken (.undecodable structured found decoded) (fun other broken => ?_) ?_ (by decide)
        · cases broken <;> simp_all
        · rw [text,decoded]
          rfl
      | some s =>
        have read : text (.file data) = .ok (String.ofList (uniformLines s.toList)) := by rw [text,decoded]
        rw [read]
        refine (DataText.answeredUnless_readJson _ (.malformedDataFile path) (.dataFileNotObject path)
          (fun _ => rfl) fun _ => rfl).congr fun fault => ⟨fun broken => ?_,fun broken => ?_⟩
        · cases broken <;> simp_all
        · exact .overlong structured found decoded (by simpa using broken)

end DataFile

theorem Fault.isOwn_of_label {fault : Fault} (label : fault.label = "DataError") : fault.isOwn = true := by
  cases fault with
  | breakdown cause => cases cause <;> exact absurd label (by decide)
  | _ => rfl

/-- Where nothing breaks down but for what the engine does not know, a fault it knows is one of the data. -/
theorem AnsweredUnless.isOwn_iff {result : Except Fault Value} {breaks : Fault → Prop} {fault : Fault}
    (answered : AnsweredUnless result breaks) (foreign : ∀ fault, breaks fault → fault.isOwn = false)
    (failed : result = .error fault) : fault.isOwn = true ↔ fault.label = "DataError" := by
  refine ⟨fun own => ?_,Fault.isOwn_of_label⟩
  have never (other : Fault) : ¬ breaks other := by
    intro broken
    obtain rfl := Except.error.inj (failed.symm.trans (answered.broken other broken))
    exact Bool.noConfusion (own.symm.trans (foreign fault broken))
  obtain ⟨entries,ok⟩ | ⟨fault',failed',label⟩ := answered.answered_iff.mpr never
  · exact nomatch failed.symm.trans ok
  · exact Except.error.inj (failed'.symm.trans failed) ▸ label

/-- The service answers refused data as such. Where the reading breaks down, there is no answer. -/
theorem Service.fill_of_parse_eq_error (setup : Setup) {form : Service.Form} {fault : Fault}
    (complete : form.template.isSome = true) (failed : DataText.parse (form.data.getD "") = .error fault) :
    fill setup form = if fault.isOwn then .ok (.badData fault) else .error fault := by
  obtain ⟨template,present⟩ := Option.isSome_iff_exists.mp complete
  rw [fill,present,failed]

/-- Refused data ends a command. Where the reading breaks down, the command does. -/
theorem Command.Request.run_of_load_eq_error (setup : Setup) {storage : Storage} {moment : String} {r : Request}
    {fault : Fault} (ready : ∃ found, r.source storage moment = .ok found)
    (failed : DataFile.load storage r.dataFile = .error fault) : if fault.isOwn
      then ∃ result, r.run setup storage moment = .ok result ∧ result.exit = 1 ∧ result.stored = none
      else r.run setup storage moment = .error fault := by
  obtain ⟨found,sought⟩ := ready
  unfold Request.run
  dsimp only
  rw [sought,failed]
  split
  · next own => exact ⟨_,if_pos own,rfl,rfl⟩
  · next foreign => exact if_neg foreign

/-- Every text and every file of data is read as a mapping or refused with a fault of the data, except where the
reading breaks down: for an integer with too many digits and, in structured files, for bytes that are no text and
for folders. The service answers refused data with 400, and it ends a command with 1; breakdowns pass through
both. -/
theorem data_answered (setup : Setup) (storage : Storage) (moment : String) :
    (∀ text, AnsweredUnless (DataText.parse text) (DataText.Breaks text.toList)) ∧
    (∀ path, AnsweredUnless (DataFile.load storage path) (DataFile.Breaks storage path)) ∧
    (∀ (form : Service.Form) (fault : Fault), form.template.isSome = true →
      DataText.parse (form.data.getD "") = .error fault → if fault.label = "DataError"
        then ∃ response, Service.fill setup form = .ok response ∧ response.status = 400
        else Service.fill setup form = .error fault) ∧
    ∀ (r : Command.Request) (fault : Fault), (∃ found, r.source storage moment = .ok found) →
      DataFile.load storage r.dataFile = .error fault → if fault.label = "DataError"
        then ∃ result, r.run setup storage moment = .ok result ∧ result.exit = 1 ∧ result.stored = none
        else r.run setup storage moment = .error fault := by
  refine ⟨DataText.answeredUnless_parse,DataFile.answeredUnless_load storage,
    fun form fault complete failed => ?_,fun r fault ready failed => ?_⟩
  · have own := (DataText.answeredUnless_parse _).isOwn_iff (fun _ broken => broken.foreign) failed
    have filled := Service.fill_of_parse_eq_error setup complete failed
    simp only [own] at filled
    split
    · next label => exact ⟨_,filled.trans (if_pos label),rfl⟩
    · next other => exact filled.trans (if_neg other)
  · have own := (DataFile.answeredUnless_load storage r.dataFile).isOwn_iff (fun _ broken => broken.foreign) failed
    have ran := r.run_of_load_eq_error setup ready failed
    simp only [own] at ran
    exact ran

/-- A file with a byte that begins no character. -/
private def drawer : Storage :=
  { find := fun path => if path == "a.json" then .file ⟨#[0xff]⟩ else .nothing }

/-- A number in the form, a file that is no text and a file that is missing. -/
theorem data_answered_drawer :
    (∃ response, Service.fill {} { template := some default, data := some "1" } = .ok response ∧
      response.status = 400) ∧
    ¬ Answered (DataFile.load drawer "a.json") ∧
    ∃ result, ({ dataFile := "b.json", blank := true } : Command.Request).run {} drawer "" = .ok result ∧
      result.exit = 1 ∧ result.stored = none := by
  obtain ⟨-,files,service,command⟩ := data_answered {} drawer ""
  have number : DataText.parse "1" = .error (.dataNotObject "int") := rfl
  have missing : DataFile.load drawer "b.json" = .error (.dataNotFound "b.json") := rfl
  have answer := service { template := some default, data := some "1" } _ rfl number
  have ended := command { dataFile := "b.json", blank := true } _ ⟨_,rfl⟩ missing
  have label : (Fault.dataNotObject "int").label = "DataError" := rfl
  have label' : (Fault.dataNotFound "b.json").label = "DataError" := rfl
  rw [if_pos label] at answer
  rw [if_pos label'] at ended
  refine ⟨answer,fun answered => ?_,ended⟩
  exact (files "a.json").answered_iff.mp answered _ (.undecodable rfl rfl rfl)

end MailMerge
