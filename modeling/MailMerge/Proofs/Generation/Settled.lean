import MailMerge.Generate
import MailMerge.Proofs.Fault

/-! What a report says. Whatever becomes of a generation, its report holds a document or an error and
never both, and a path only beside a document. The one thing that keeps a generation from having a
report is a file name that is no text.
-/
namespace MailMerge

/-- A report holds either a document, with the path it was saved at if it was to be saved, or an error
and no path. -/
def Report.Settled (r : Report) (destination : Option Destination) : Prop :=
  (∃ entries, r.document = some entries ∧ r.error = none ∧ r.path = destination.map (·.path)) ∨
    ∃ fault, r.error = some fault ∧ r.document = none ∧ r.path = none

namespace Generate

theorem settled_failed (r : Report) (fault : Fault) (destination : Option Destination) :
    (failed r fault).Settled destination :=
  Or.inr ⟨fault,rfl,rfl,rfl⟩

theorem settled_finished {r : Report} (faultless : r.error = none) (entries : Archive.Entries)
    (destination : Option Destination) :
    (finished r entries (destination.map (·.path))).Settled destination :=
  Or.inl ⟨entries,rfl,faultless,rfl⟩

/-- A document that is saved is at its destination. -/
theorem path_of_save {destination : Option Destination} {entries : Archive.Entries}
    {journal journal' : Journal} {path : Option String}
    (saved : save destination entries journal = (.ok path,journal')) :
    path = destination.map (·.path) := by
  unfold save at saved
  split at saved
  · exact (Except.ok.inj (Prod.mk.inj saved).1).symm
  · simp at saved
  · exact (Except.ok.inj (Prod.mk.inj saved).1).symm

/-- Every generation under a file name is settled. -/
theorem settled_named (setup : Setup) (source : Source) (o : Options) (fileName : String)
    (destination : Option Destination) :
    (named setup source o fileName destination).Settled destination := by
  unfold named
  dsimp only
  split
  · exact settled_failed ..
  · split
    · exact settled_failed ..
    · split
      · exact settled_failed ..
      · next path journal saved =>
        obtain rfl := path_of_save saved
        exact settled_finished rfl ..

end Generate

namespace Options

/-- The value that a mapping of options has for the file name, under either of its names. -/
def asked (entries : List (Scalar × Value)) : Value :=
  (Entries.get? entries "file_name").getD ((Entries.get? entries "fileName").getD .null)

/-- A value gives a file name: a text does, and so does what counts as nothing, which stands for the
usual name. -/
def GivesName (v : Value) : Prop :=
  v.isTruthy = true → ∃ name, v = .text name

/-- The document has a file name, or what was asked for is of a kind that gives none. -/
theorem resolvedFileName_cases (o : Options) (s : Settings) :
    (GivesName o.fileName ∧ ∃ name, o.resolvedFileName s = .ok name) ∨
      (¬ GivesName o.fileName ∧ o.resolvedFileName s = .error (.breakdown .kind)) := by
  unfold resolvedFileName
  extract_lets ended
  split
  · next name asked => exact Or.inl ⟨fun _ => ⟨name,asked⟩,_,rfl⟩
  · next v other =>
    split
    · next truthy =>
      refine Or.inr ⟨fun gives => ?_,rfl⟩
      obtain ⟨name,asked⟩ := gives truthy
      exact other name asked
    · next falsy => exact Or.inl ⟨fun truthy => absurd truthy falsy,_,rfl⟩

end Options

/-- A generation from bytes that saves nothing has a report with a document or an error, and no path,
exactly when the options give a file name. Otherwise it breaks down. -/
theorem report_of_generate (setup : Setup) (data : ByteArray) (entries : List (Scalar × Value)) :
    ((∃ r, generate setup (.bytes data) (.map entries) (fun _ => none) = .ok r ∧ r.Settled none) ↔
      Options.GivesName (Options.asked entries)) ∧
    (generate setup (.bytes data) (.map entries) (fun _ => none) = .error (.breakdown .kind) ↔
      ¬ Options.GivesName (Options.asked entries)) := by
  obtain ⟨o,chosen,asked⟩ : ∃ o, Options.ofValue (.map entries) = .ok o ∧
      o.fileName = Options.asked entries := ⟨_,rfl,rfl⟩
  rw [← asked]
  have opened : generate setup (.bytes data) (.map entries) (fun _ => none) = (do
      let fileName ← o.resolvedFileName setup.settings
      return Generate.named setup (.bytes data) o fileName none) := by
    rw [generate,chosen]
    rfl
  rcases o.resolvedFileName_cases setup.settings with ⟨gives,name,resolved⟩ | ⟨refuses,resolved⟩
  · have reported : generate setup (.bytes data) (.map entries) (fun _ => none) =
        .ok (Generate.named setup (.bytes data) o name none) := by
      rw [opened,resolved]
      rfl
    have settled := Generate.settled_named setup (.bytes data) o name none
    rw [reported]
    exact ⟨⟨fun _ => gives,fun _ => ⟨_,rfl,settled⟩⟩,by simp [gives]⟩
  · have broken : generate setup (.bytes data) (.map entries) (fun _ => none) =
        .error (.breakdown .kind) := by
      rw [opened,resolved]
      rfl
    rw [broken]
    exact ⟨by simp [refuses],by simp [refuses]⟩

end MailMerge
