import MailMerge.Proofs.Package.Lasting
import MailMerge.Proofs.Package.Sketched

/-! Which entries of manifests are saved. An entry is saved when the manifest in use is still the tree
that is written into its part, and that tree is touched or will be. Any other entry leaves no trace:
the package is saved as if it had never been made.
-/
namespace MailMerge
open Xml Docx Package

namespace Outline

theorem lookup_parts_flush (o : Outline) (name : String) : o.flush.parts.lookup name =
    if name ∈ o.touched then ((o.drafts name).map (·.bytes o.prefixes)).or (o.parts.lookup name)
    else o.parts.lookup name := by
  have folded : o.flush.parts.lookup name = ((if name ∈ sorted o.touched then
      (o.drafts name).map (·.bytes o.prefixes) else none).or (o.parts.lookup name)) := by
    rw [← lookup_foldl_store fun name => (o.drafts name).map (·.bytes o.prefixes)]
    simp only [flush]
    congr 1
    apply List.foldl_ext
    intro parts other _
    cases o.drafts other <;> rfl
  rw [folded]
  by_cases touched : name ∈ o.touched <;> simp [mem_sorted,touched]

theorem mem_touch {o : Outline} {name other : String} :
    name ∈ (o.touch other).touched ↔ name ∈ o.touched ∨ name = other := by
  simp only [touch]
  split
  · next present =>
    constructor
    · exact Or.inl
    · rintro (member | rfl)
      · exact member
      · simpa using present
  · simp

end Outline

/-- Two outlines differ at most in the draft of one part, which will not be written. -/
structure Veiled (name : String) (o o' : Outline) : Prop where
  parts : o'.parts = o.parts
  order : o'.order = o.order
  touched : o'.touched = o.touched
  manifests : o'.manifests = o.manifests
  prefixes : o'.prefixes = o.prefixes
  drafts : ∀ other, other ≠ name → o'.drafts other = o.drafts other
  follows : o.manifests name = some true
  untouched : name ∉ o.touched

/-- A draft holds an entry, and once it is marked it will be written or was. -/
structure Holding (name : String) (entry : Entry) (saved : Option ByteArray → Prop) (marked : Prop)
    (o o' : Outline) : Prop where
  same : o' = o
  follows : o.manifests name = some true
  draft : ∃ d, o.drafts name = some d ∧ d.element.Holds entry
  written : marked → name ∈ o.touched ∨ saved (o.parts.lookup name)

namespace Veiled

variable {name : String} {o o' : Outline}

theorem touch (veiled : Veiled name o o') {other : String} (different : other ≠ name) :
    Veiled name (o.touch other) (o'.touch other) where
  parts := veiled.parts
  order := veiled.order
  touched := by simp only [Outline.touch,veiled.touched]
  manifests := veiled.manifests
  prefixes := veiled.prefixes
  drafts := veiled.drafts
  follows := veiled.follows
  untouched := by simp [Outline.mem_touch,veiled.untouched,Ne.symm different]

/-- Drafts may change alike, and the hidden one at will. -/
theorem amend (veiled : Veiled name o o') (other : String) (change : Element → Element) :
    Veiled name (o.amend other change) (o'.amend other change) where
  parts := veiled.parts
  order := veiled.order
  touched := veiled.touched
  manifests := veiled.manifests
  prefixes := veiled.prefixes
  drafts next different := by
    simp only [Outline.amend]
    split
    · next here => rw [← here,veiled.drafts next different]
    · exact veiled.drafts next different
  follows := veiled.follows
  untouched := veiled.untouched

private theorem draw (veiled : Veiled name o o') (other : String) (d : Draft) :
    Veiled name (o.draw other d) (o'.draw other d) where
  parts := veiled.parts
  order := veiled.order
  touched := veiled.touched
  manifests := veiled.manifests
  prefixes := veiled.prefixes
  drafts next different := by
    simp only [Outline.draw]
    split
    · rfl
    · exact veiled.drafts next different
  follows := veiled.follows
  untouched := veiled.untouched

theorem lasting (name : String) : Lasting name (Veiled name) where
  parts := Veiled.parts
  manifests := Veiled.manifests
  prefixes := Veiled.prefixes
  drafts := Veiled.drafts
  follows := Veiled.follows
  touch veiled _ different := veiled.touch different
  enter veiled _ := ⟨veiled.parts,veiled.order,veiled.touched,veiled.manifests,rfl,veiled.drafts,
    veiled.follows,veiled.untouched⟩
  draw veiled other d _ := veiled.draw other d
  create veiled other d different := by
    have drawn := veiled.draw other d
    apply Veiled.touch _ different
    refine ⟨?_,drawn.order,drawn.touched,?_,drawn.prefixes,drawn.drafts,?_,drawn.untouched⟩
    · simp only [veiled.parts]
    · simp only [veiled.manifests]
    · simp only [Ne.symm different,if_false,veiled.follows]
  use veiled other different := by
    refine ⟨veiled.parts,veiled.order,veiled.touched,?_,veiled.prefixes,veiled.drafts,?_,
      veiled.untouched⟩
    · simp only [Outline.use,veiled.manifests]
    · simp only [Outline.use,Ne.symm different,if_false,veiled.follows]
  amend veiled other change _ := veiled.amend other change
  ensureDefault veiled extension type := veiled.amend name _

theorem flush (veiled : Veiled name o o') : Veiled name o.flush o'.flush where
  parts := by
    simp only [Outline.flush,veiled.parts,veiled.touched,veiled.prefixes]
    apply List.foldl_ext
    intro parts other member
    have different : other ≠ name := by
      rintro rfl
      exact veiled.untouched (mem_sorted.mp member)
    rw [veiled.drafts other different]
  order := veiled.order
  touched := rfl
  manifests := veiled.manifests
  prefixes := veiled.prefixes
  drafts := veiled.drafts
  follows := veiled.follows
  untouched := by simp [Outline.flush]

theorem write (veiled : Veiled name o o') {other : String} (different : other ≠ name)
    (data : ByteArray) : Veiled name (o.write other data) (o'.write other data) where
  parts := by simp only [Outline.write,veiled.parts]
  order := veiled.order
  touched := by simp only [Outline.write,veiled.touched]
  manifests := by simp only [Outline.write,veiled.manifests]
  prefixes := veiled.prefixes
  drafts next different := by
    simp only [Outline.write]
    split
    · rfl
    · exact veiled.drafts next different
  follows := by simp only [Outline.write,Ne.symm different,if_false,veiled.follows]
  untouched member := veiled.untouched (List.mem_of_mem_filter member)

theorem after (veiled : Veiled name o o') {entry : Entry} {op : Operation}
    (kept : op.Keeps name entry) (unedited : ∀ change, op ≠ .edit name change) :
    Veiled name (o.after op) (o'.after op) := by
  have lasting := lasting name
  cases op with
  | relate part key kind target =>
    refine Lasts.after (Lasts.of_bind (lasting.relationshipsOf veiled part) ?_)
    intro _ q q' veiled
    exact Lasts.of_modify (lasting.change veiled _ _ fun _ => veiled.amend name _)
  | ensureDefault extension type =>
    refine Lasts.after (Lasts.of_bind (lasting.contentTypes veiled) ?_)
    intro _ q q' veiled
    exact Lasts.of_modify (lasting.change veiled _ _ fun _ => veiled.amend name _)
  | ensureOverride part type =>
    refine Lasts.after (Lasts.of_bind (lasting.contentTypes veiled) ?_)
    intro _ q q' veiled
    exact Lasts.of_modify (lasting.change veiled _ _ fun _ => veiled.amend name _)
  | edit other change =>
    have different : other ≠ name := fun same => unedited change (same ▸ rfl)
    refine Lasts.after (Lasts.of_bind (lasting.root? veiled different) ?_)
    intro known q q' veiled
    cases known with
    | true => exact Lasts.of_modify (veiled.amend other change)
    | false => exact Lasts.of_pure veiled
  | write other data => exact veiled.write kept data
  | flush | save => exact veiled.flush

theorem run (veiled : Veiled name o o') {entry : Entry} {ops : List Operation}
    (kept : ∀ op ∈ ops, op.Keeps name entry) (unedited : ∀ change, .edit name change ∉ ops) :
    Veiled name (o.run ops) (o'.run ops) := by
  induction ops generalizing o o' with
  | nil => exact veiled
  | cons op ops ih =>
    have veiled' := veiled.after (kept op List.mem_cons_self) fun change same =>
      unedited change (same ▸ List.mem_cons_self)
    exact ih veiled' (fun next member => kept next (List.mem_cons_of_mem _ member))
      fun change member => unedited change (List.mem_cons_of_mem _ member)

end Veiled
namespace Holding

variable {name : String} {entry : Entry} {saved : Option ByteArray → Prop} {marked : Prop}
variable {o o' : Outline}

private theorem amend_other (holding : Holding name entry saved marked o o') {other : String}
    (change : Element → Element) (different : other ≠ name) :
    Holding name entry saved marked (o.amend other change) (o'.amend other change) where
  same := holding.same ▸ rfl
  follows := holding.follows
  draft := by
    simp only [Outline.amend,Ne.symm different,if_false]
    exact holding.draft
  written := holding.written

private theorem amend (holding : Holding name entry saved marked o o') {change : Element → Element}
    (kept : ∀ e : Element, e.Holds entry → (change e).Holds entry) :
    Holding name entry saved marked (o.amend name change) (o'.amend name change) where
  same := holding.same ▸ rfl
  follows := holding.follows
  draft := by
    obtain ⟨d,drawn,held⟩ := holding.draft
    exact ⟨{ d with element := change d.element },by simp [Outline.amend,drawn],kept _ held⟩
  written := holding.written

private theorem touch (holding : Holding name entry saved marked o o') (other : String) :
    Holding name entry saved marked (o.touch other) (o'.touch other) where
  same := holding.same ▸ rfl
  follows := holding.follows
  draft := holding.draft
  written mark := (holding.written mark).imp_left fun member => Outline.mem_touch.mpr (Or.inl member)

private theorem draw (holding : Holding name entry saved marked o o') {other : String} (d : Draft)
    (different : other ≠ name) :
    Holding name entry saved marked (o.draw other d) (o'.draw other d) where
  same := holding.same ▸ rfl
  follows := holding.follows
  draft := by
    simp only [Outline.draw,Ne.symm different,if_false]
    exact holding.draft
  written := holding.written

theorem lasting (name : String) (entry : Entry) (saved : Option ByteArray → Prop) (marked : Prop) :
    Lasting name (Holding name entry saved marked) where
  parts holding := holding.same ▸ rfl
  manifests holding := holding.same ▸ rfl
  prefixes holding := holding.same ▸ rfl
  drafts holding _ _ := holding.same ▸ rfl
  follows := Holding.follows
  touch holding other _ := holding.touch other
  enter holding _ := ⟨holding.same ▸ rfl,holding.follows,holding.draft,holding.written⟩
  draw holding _ d different := holding.draw d different
  create holding other d different := by
    apply Holding.touch
    have drawn := holding.draw d different
    refine ⟨holding.same ▸ rfl,?_,drawn.draft,?_⟩
    · simp only [Ne.symm different,if_false,holding.follows]
    · simp only [lookup_store,Ne.symm different,if_false]
      exact holding.written
  use holding other different := by
    refine ⟨holding.same ▸ rfl,?_,holding.draft,holding.written⟩
    simp only [Outline.use,Ne.symm different,if_false,holding.follows]
  amend holding _ change different := holding.amend_other change different
  ensureDefault holding extension type :=
    holding.amend fun _ held => held.ensureDefault extension type

/-- Flushing writes what is marked. -/
private theorem flush (holding : Holding name entry saved marked o o')
    (saves : ∀ d, o.drafts name = some d → d.element.Holds entry → saved (some (d.bytes o.prefixes))) :
    Holding name entry saved marked o.flush o'.flush where
  same := holding.same ▸ rfl
  follows := holding.follows
  draft := holding.draft
  written mark := by
    obtain ⟨d,drawn,held⟩ := holding.draft
    rw [Outline.lookup_parts_flush]
    right
    rcases holding.written mark with touched | before
    · simpa [touched,drawn] using saves d drawn held
    · split
      · simpa [drawn] using saves d drawn held
      · exact before

/-- The draft is marked by an operation that edits it. -/
theorem after (holding : Holding name entry saved marked o o') {op : Operation}
    (kept : op.Keeps name entry)
    (saves : ∀ d, o.drafts name = some d → d.element.Holds entry → saved (some (d.bytes o.prefixes))) :
    Holding name entry saved (marked ∨ ∃ change, op = .edit name change) (o.after op)
      (o'.after op) := by
  have lasting := lasting name entry saved marked
  have marks (unedited : ∀ change, op ≠ .edit name change)
      (holding : Holding name entry saved marked (o.after op) (o'.after op)) :
      Holding name entry saved (marked ∨ ∃ change, op = .edit name change) (o.after op)
        (o'.after op) := by
    refine ⟨holding.same,holding.follows,holding.draft,?_⟩
    rintro (mark | ⟨change,edited⟩)
    · exact holding.written mark
    · exact absurd edited (unedited change)
  cases op with
  | relate part key kind target =>
    apply marks (by simp)
    refine Lasts.after (Lasts.of_bind (lasting.relationshipsOf holding part) ?_)
    intro _ q q' holding
    exact Lasts.of_modify (lasting.change holding _ _ fun same =>
      holding.amend fun _ held => held.relate (kept same))
  | ensureDefault extension type =>
    apply marks (by simp)
    refine Lasts.after (Lasts.of_bind (lasting.contentTypes holding) ?_)
    intro _ q q' holding
    exact Lasts.of_modify (lasting.change holding _ _ fun _ =>
      holding.amend fun _ held => held.ensureDefault extension type)
  | ensureOverride part type =>
    apply marks (by simp)
    refine Lasts.after (Lasts.of_bind (lasting.contentTypes holding) ?_)
    intro _ q q' holding
    exact Lasts.of_modify (lasting.change holding _ _ fun same =>
      holding.amend fun _ held => held.ensureOverride (kept same.symm))
  | edit other change =>
    by_cases same : other = name
    · subst same
      obtain rfl := holding.same
      obtain ⟨d,drawn,held⟩ := holding.draft
      have ran : o'.after (.edit other change) = (o'.touch other).amend other change := by
        rw [Outline.after_edit,drawn]
      rw [ran]
      have amended : Holding other entry saved marked ((o'.touch other).amend other change)
          ((o'.touch other).amend other change) := (holding.touch other).amend (kept rfl)
      refine ⟨rfl,amended.follows,amended.draft,fun _ => Or.inl ?_⟩
      exact Outline.mem_touch.mpr (Or.inr rfl)
    · apply marks (by simpa using same)
      refine Lasts.after (Lasts.of_bind (lasting.root? holding same) ?_)
      intro known q q' holding
      cases known with
      | true => exact Lasts.of_modify (holding.amend_other change same)
      | false => exact Lasts.of_pure holding
  | write other data =>
    apply marks (by simp)
    have different : other ≠ name := kept
    refine ⟨holding.same ▸ rfl,?_,?_,?_⟩
    · show (o.write other data).manifests name = some true
      simp only [Outline.write,Ne.symm different,if_false,holding.follows]
    · show ∃ d, (o.write other data).drafts name = some d ∧ _
      simp only [Outline.write,Ne.symm different,if_false]
      exact holding.draft
    · intro mark
      show name ∈ (o.write other data).touched ∨ saved ((o.write other data).parts.lookup name)
      simp only [Outline.write,lookup_store,Ne.symm different,if_false]
      refine (holding.written mark).imp_left fun member => ?_
      simpa [Ne.symm different] using member
  | flush =>
    apply marks (by simp)
    exact holding.flush saves
  | save =>
    apply marks (by simp)
    exact holding.flush saves

private theorem remark (holding : Holding name entry saved marked o o') {marked' : Prop}
    (implies : marked' → marked) : Holding name entry saved marked' o o' :=
  ⟨holding.same,holding.follows,holding.draft,fun mark => holding.written (implies mark)⟩

theorem run (holding : Holding name entry saved marked o o) {ops : List Operation}
    (kept : ∀ op ∈ ops, op.Keeps name entry)
    (saves : ∀ earlier, earlier <+: ops → ∀ d, (o.run earlier).drafts name = some d →
      d.element.Holds entry → saved (some (d.bytes (o.run earlier).prefixes))) :
    Holding name entry saved (marked ∨ ∃ change, .edit name change ∈ ops) (o.run ops)
      (o.run ops) := by
  induction ops generalizing o marked with
  | nil => exact holding.remark (by simp)
  | cons op ops ih =>
    have next := holding.after (kept op List.mem_cons_self) (saves [] (by simp))
    have rest := ih next (fun op' member => kept op' (List.mem_cons_of_mem _ member))
      fun earlier before => saves (op :: earlier) (by simpa using before)
    apply rest.remark
    rintro (mark | ⟨change,member⟩)
    · exact Or.inl (Or.inl mark)
    · rcases List.mem_cons.mp member with here | later
      · exact Or.inl (Or.inr ⟨change,here.symm⟩)
      · exact Or.inr ⟨change,later⟩

end Holding

namespace Package

/-- What an entry in a manifest does to a package. If the manifest in use is the tree that is written,
that tree holds the entry. If not, or if the tree is not touched, nothing that is written changes. -/
structure Entered (p : Package) (name : String) (entry : Entry) (q : Package) : Prop where
  coherent : q.Coherent
  held : q.Follows name → ∃ d, q.outline.drafts name = some d ∧ d.element.Holds entry
  stale : ¬ q.Follows name → q.outline = p.outline
  veiled : q.Follows name → name ∉ q.touched → Veiled name p.outline q.outline

variable {p q r : Package} {name : String} {entry : Entry}

private theorem Entered.of_amended {root : NodeId} {change : Element → Element}
    (found : q.outline = p.outline ∨ q.outline.manifests name = some true ∧ name ∈ q.outline.touched)
    (used : q.manifest? name = some root) (amended : Amended q name root change r)
    (holds : (change (q.forest.element root)).Holds entry) : p.Entered name entry r := by
  obtain ⟨outline_eq,used'⟩ := amended.change used
  have manifests : r.outline.manifests = q.outline.manifests := by
    rw [outline_eq,Outline.change]
    split <;> rfl
  have touched : r.outline.touched = q.outline.touched := by
    rw [outline_eq,Outline.change]
    split <;> rfl
  refine ⟨amended.coherent,?_,?_,?_⟩
  · rintro ⟨t,known,used''⟩
    obtain rfl := Option.some.inj (used'.symm.trans used'')
    refine ⟨⟨r.forest.element t.root,t.tag,t.defaultSpace⟩,by simp [outline,known],?_⟩
    rwa [amended.element]
  · intro stale
    rw [follows_iff,manifests] at stale
    rcases found with same | ⟨following,_⟩
    · rw [outline_eq,Outline.change,if_neg stale,same]
    · exact absurd following stale
  · intro follows untouched
    rw [follows_iff,manifests] at follows
    rcases found with same | ⟨_,member⟩
    · rw [outline_eq,Outline.change,if_pos follows,same]
      refine ⟨rfl,rfl,rfl,rfl,rfl,?_,same ▸ follows,?_⟩
      · intro other different
        simp [Outline.amend,different]
      · have untouched' : name ∉ r.outline.touched := untouched
        rwa [touched,same] at untouched'
    · exact absurd (touched ▸ member : name ∈ r.outline.touched) untouched

/-- How finding a manifest ends, on a package and on its outline. -/
private theorem found_of_sketched {find : Packaging NodeId} {find' : Outlining Unit}
    (sketched : Sketched find find' p (Used name)) {root : NodeId} (ran : find p = .ok root q) :
    find' p.outline = .ok () q.outline ∧ q.Coherent ∧ q.manifest? name = some root := by
  unfold Sketched at sketched
  rw [ran] at sketched
  cases ran' : find' p.outline with
  | error fault o => simp [ran'] at sketched
  | ok _ o =>
    rw [ran'] at sketched
    obtain ⟨rfl,coherent,used⟩ := sketched
    exact ⟨rfl,coherent,used⟩

theorem Coherent.entered (coherent : p.Coherent) {o : Operation}
    (done : o.perform p = .ok (some (name,entry)) q) : p.Entered name entry q := by
  have none_made {u : Package} (made : (pure none : Packaging (Option (String × Entry))) u =
      .ok (some (name,entry)) q) : False :=
    Option.some_ne_none _ (EStateM.Result.ok.inj made).1.symm
  cases o with
  | relate part key kind target =>
    obtain ⟨root,q',found,done⟩ := exists_of_bind_eq_result done
    obtain ⟨found',coherent',used⟩ := found_of_sketched (sketched_relationshipsOf coherent part) found
    obtain ⟨same,rfl⟩ := EStateM.Result.ok.inj done
    obtain ⟨rfl,rfl⟩ := Prod.mk.inj (Option.some.inj same)
    exact Entered.of_amended ((Outlining.used_of_relationshipsOf found').imp_left And.left) used
      (coherent'.amended_relate (Or.inr used) key kind target) (Element.holds_relate _ key kind target)
  | ensureDefault extension type =>
    obtain ⟨root,q',found,done⟩ := exists_of_bind_eq_result done
    obtain ⟨found',coherent',used⟩ := found_of_sketched (sketched_contentTypes coherent) found
    obtain ⟨new,r,ran,amended,new_eq⟩ :=
      coherent'.amended_ensureDefault (Or.inr used) extension type
    obtain ⟨_,_,ran',done⟩ := exists_of_bind_eq_result done
    obtain ⟨rfl,rfl⟩ := EStateM.Result.ok.inj (ran.symm.trans ran')
    obtain ⟨same,rfl⟩ := EStateM.Result.ok.inj done
    cases new with
    | false => simp at same
    | true =>
      obtain ⟨rfl,rfl⟩ := Prod.mk.inj (Option.some.inj same)
      have absent : (q'.forest.element root).hasDefault extension = false := by
        simpa using new_eq.symm
      exact Entered.of_amended ((Outlining.used_of_contentTypes found').imp_left And.left) used
        amended (Element.holds_ensureDefault _ absent type)
  | ensureOverride part type =>
    obtain ⟨root,q',found,done⟩ := exists_of_bind_eq_result done
    obtain ⟨found',coherent',used⟩ := found_of_sketched (sketched_contentTypes coherent) found
    obtain ⟨same,rfl⟩ := EStateM.Result.ok.inj done
    obtain ⟨rfl,rfl⟩ := Prod.mk.inj (Option.some.inj same)
    exact Entered.of_amended ((Outlining.used_of_contentTypes found').imp_left And.left) used
      (coherent'.amended_ensureOverride (Or.inr used) part type)
      (Element.holds_ensureOverride _ part type)
  | edit other change =>
    obtain ⟨found,_,_,done⟩ := exists_of_bind_eq_result done
    cases found with
    | none => exact (none_made done).elim
    | some root =>
      obtain ⟨_,_,_,made⟩ := exists_of_bind_eq_result done
      exact (none_made made).elim
  | write other data =>
    obtain ⟨_,_,_,made⟩ := exists_of_bind_eq_result done
    exact (none_made made).elim
  | flush =>
    obtain ⟨_,_,_,made⟩ := exists_of_bind_eq_result done
    exact (none_made made).elim
  | save =>
    obtain ⟨_,_,_,made⟩ := exists_of_bind_eq_result done
    exact (none_made made).elim

theorem entries_congr (parts : q.parts = p.parts) (order : q.order = p.order) :
    q.entries = p.entries := by
  have held : q.hasPart = p.hasPart := by
    funext name
    simp only [hasPart,parts]
  have contents (name : String) : q.part? name = p.part? name := by simp only [part?,parts]
  simp only [entries,savedNames,names,held,contents,parts,order]
  rfl

/-- Whether an entry that was just made in a manifest will be saved. -/
def Saves (p : Package) (name : String) (later : List Operation) : Prop :=
  p.Follows name ∧ (name ∈ p.touched ∨ ∃ change, .edit name change ∈ later)

/-- An entry of a manifest that is not taken back is saved exactly if the manifest in use follows the
part and the part is touched, now or later. Then the saved part is written from a tree that holds the
entry; otherwise all that is saved is saved as if the entry had never been made. -/
theorem manifest_entry_saved {p₀ p : Package} (fresh : p₀.Fresh) (before : List Operation)
    {o : Operation} {name : String} {entry : Entry}
    (entered : o.perform (p₀.run before) = .ok (some (name,entry)) p) (later : List Operation)
    (kept : ∀ o ∈ later, o.Keeps name entry) :
    (p.Saves name later → ∃ earlier t, earlier <+: later ∧
      (p.run earlier).trees.lookup name = some t ∧
      ((p.run earlier).forest.element t.root).Holds entry ∧
      (p.run (later ++ [.save])).part? name = some (Text.encode (String.ofList
        (treeText (p.run earlier).prefixes (p.run earlier).forest t)))) ∧
    (¬ p.Saves name later →
      (p.run (later ++ [.save])).entries = (p₀.run (before ++ later ++ [.save])).entries) := by
  have made := (fresh.coherent.run before).1.entered entered
  have former := (fresh.coherent.run before).1
  constructor
  · rintro ⟨follows,marked⟩
    let saved (data : Option ByteArray) : Prop := ∃ earlier d, earlier <+: later ∧
      (p.outline.run earlier).drafts name = some d ∧ d.element.Holds entry ∧
      data = some (d.bytes (p.outline.run earlier).prefixes)
    have holding : Holding name entry saved (name ∈ p.touched) p.outline p.outline :=
      ⟨rfl,follows_iff.mp follows,made.held follows,Or.inl⟩
    have held := holding.run kept fun earlier first d drawn holds =>
      ⟨earlier,d,first,drawn,holds,rfl⟩
    have kept' : Operation.save.Keeps name entry := trivial
    have held := held.after kept' fun d drawn holds =>
      ⟨later,d,List.prefix_refl later,drawn,holds,rfl⟩
    have final : (p.run (later ++ [.save])).outline = (p.outline.run later).after .save := by
      rw [(made.coherent.run _).2,Outline.run_append]
      rfl
    rcases held.written (Or.inl marked) with touched | ⟨earlier,d,before,drawn,holds,written⟩
    · have cleared : ((p.outline.run later).after .save).touched = [] := rfl
      simp [cleared] at touched
    · rw [← (made.coherent.run earlier).2] at drawn written
      obtain ⟨t,known,rfl⟩ := Option.map_eq_some_iff.mp drawn
      refine ⟨earlier,t,before,known,holds,?_⟩
      rw [← final] at written
      exact written
  · intro lost
    have outlines : (p.run (later ++ [.save])).outline = p.outline.run (later ++ [.save]) :=
      (made.coherent.run _).2
    have outlines' : (p₀.run (before ++ later ++ [.save])).outline =
        (p₀.run before).outline.run (later ++ [.save]) := by
      rw [List.append_assoc,run_append]
      exact (former.run _).2
    by_cases follows : p.Follows name
    · -- the manifest is written from its tree, but nothing touches that again
      have untouched : name ∉ p.touched := fun touched => lost ⟨follows,Or.inl touched⟩
      have unedited : ∀ change, .edit name change ∉ later ++ [.save] := by
        intro change member
        have member : .edit name change ∈ later := by simpa using member
        exact lost ⟨follows,Or.inr ⟨change,member⟩⟩
      have kept' : ∀ o ∈ later ++ [.save], o.Keeps name entry := by
        intro o member
        rcases List.mem_append.mp member with member | member
        · exact kept o member
        · obtain rfl := List.mem_singleton.mp member
          exact trivial
      have veiled := (made.veiled follows untouched).run kept' unedited
      rw [← outlines,← outlines'] at veiled
      exact entries_congr veiled.parts veiled.order
    · have same : (p.run (later ++ [.save])).outline =
          (p₀.run (before ++ later ++ [.save])).outline := by
        rw [outlines,outlines',made.stale follows]
      exact entries_congr (congrArg Outline.parts same) (congrArg Outline.order same)

/-- A package with an empty document and nothing else. -/
def bareDocument : Package := { parts := [(documentPart,.empty)] }

private def relateTo (target : String) : Operation := .relate documentPart target "kind" target

private def relatedLate : EStateM.Result Fault Package (Option (String × Entry)) :=
  (relateTo "b").perform (bareDocument.run [relateTo "a",.flush])

private def isLost : Bool :=
  match relatedLate with
  | .ok made p =>
    made == some (Path.relationships documentPart,.relation "b" "kind" "b") && p.touched.isEmpty
  | .error _ _ => false

/-- A relationship that is added after a flush is lost. -/
theorem relation_lost_after_flush : ∃ p,
    (relateTo "b").perform (bareDocument.run [relateTo "a",.flush]) =
      .ok (some (Path.relationships documentPart,.relation "b" "kind" "b")) p ∧
    ¬ p.Saves (Path.relationships documentPart) [] ∧
    (p.run [.save]).entries = (bareDocument.run [relateTo "a",.flush,.save]).entries := by
  have lost : isLost = true := by decide +kernel
  unfold isLost at lost
  split at lost
  · next made p ran =>
    rw [Bool.and_eq_true,beq_iff_eq,List.isEmpty_iff] at lost
    obtain ⟨rfl,untouched⟩ := lost
    have unsaved : ¬ p.Saves (Path.relationships documentPart) [] := by
      rintro ⟨_,touched | ⟨_,edited⟩⟩
      · simp [untouched] at touched
      · simp at edited
    have fresh : bareDocument.Fresh := ⟨rfl,rfl,rfl,rfl,rfl⟩
    have saved := manifest_entry_saved fresh [relateTo "a",.flush] ran [] (by simp)
    exact ⟨p,ran,unsaved,saved.2 unsaved⟩
  · simp at lost

end Package
end MailMerge
