import MailMerge.Proofs.Generation.Rounds

/-! Which paragraphs rounds fill. The elements of the rounds of a run are tables below one element, or
that element itself, so what is outside for one of them is outside for no other; as a paragraph leaves
its place only in its own round, a round lists no paragraph that came after the beginning, and misses
one that was there only if it is no longer in the tree.
-/
namespace MailMerge.Fill
open Docx Package Relation Forest

/-- A paragraph was no longer in the tree when a round listed its paragraphs: an element at or above it
had left its place, as a paragraph of an earlier round, as a row of a table or as a shading. -/
structure Round.Missed (f : Forest) (root : NodeId) (earlier : List NodeId) (round : Round)
    (p : NodeId) : Prop where
  away : ¬round.state.package.forest.Below root p
  cause : ∃ n c, f.Child n c ∧ f.Below c p ∧ ¬round.state.package.forest.Child n c ∧
    (c ∈ earlier ∨ f.Spare n c)

/-- A round fills paragraphs that were outside the tables of its element at the beginning and still
are below it, none of them twice, and it leaves out none that is still in the tree. Only paragraphs of
earlier rounds, rows and shadings have left their places before it. -/
structure Round.Fair (f : Forest) (root : NodeId) (earlier : List NodeId) (round : Round) : Prop where
  nodup : round.passed.Nodup
  listed : round.passed ⊆ f.outside round.element paragraphName tableName
  present : ∀ p ∈ round.passed, round.state.package.forest.Below round.element p
  left : ∀ n c, f.Below root n → f.Child n c → ¬round.state.package.forest.Child n c →
    c ∈ earlier ∨ f.Spare n c
  missed : ∀ p ∈ f.outside round.element paragraphName tableName, p ∉ round.passed →
    round.Missed f root earlier p

/-- The paragraphs of rounds. -/
def passed (rounds : List Round) : List NodeId :=
  rounds.flatMap (·.passed)

variable {setup : Setup}

/-- A tree from whose root a top element is reached, below which the rounds of a run have their
elements. -/
structure Site (start : World) (root top : NodeId) : Prop where
  ready : start.Ready start.package.forest.nodes.size
  owned : start.Owned root
  root_eq : start.session.index.root = root
  path : start.package.forest.Below root top

/-- The index at a site knows the paths to all tables. -/
def Site.Attested (start : World) (root : NodeId) : Prop :=
  ∀ t ∈ start.package.forest.named root tableName,
    start.session.index.Attests start.package.forest t

/-- The top element of a site, or a table below it. -/
structure Site.Place (start : World) (top id : NodeId) : Prop where
  path : start.package.forest.Below top id
  kind : id = top ∨ start.package.forest.name id = tableName

namespace Site

variable {start w : World} {root top : NodeId} {earlier : List NodeId}

/-- A run has come to a world after some paragraphs were filled, each in the round of some place. -/
structure Reached (setup : Setup) (start : World) (top : NodeId) (done earlier : List NodeId)
    (w : World) : Prop where
  moves : Moves setup ⟨start.package.forest.nodes.size,fun q _ => q ∈ earlier⟩ start w
  homes : ∀ q ∈ earlier, ∃ id ∈ done, q ∈ start.package.forest.outside id paragraphName tableName

/-- A run comes further in a round whose paragraphs belong to its element. -/
theorem Reached.pass {done : List NodeId} {w' : World} {round : Round}
    (reached : Reached setup start top done earlier w)
    (after : Moves setup ⟨start.package.forest.nodes.size,fun q _ => q ∈ round.passed⟩ w w')
    (listed : round.passed ⊆ start.package.forest.outside round.element paragraphName tableName) :
    Reached setup start top (done ++ [round.element]) (earlier ++ round.passed) w' where
  moves := by
    have former : Moves setup ⟨start.package.forest.nodes.size,
        fun q _ => q ∈ earlier ++ round.passed⟩ start w :=
      reached.moves.widen ⟨Nat.le_refl _,fun _ _ => List.mem_append_left _⟩
    exact former.trans (after.widen ⟨Nat.le_refl _,fun _ _ => List.mem_append_right _⟩)
  homes q member := by
    rcases List.mem_append.mp member with member | member
    · obtain ⟨id,finished,outside⟩ := reached.homes q member
      exact ⟨id,List.mem_append_left _ finished,outside⟩
    · exact ⟨round.element,by simp,listed member⟩

variable (site : Site start root top)
include site

theorem place_owned {id : NodeId} (place : Place start top id) : start.Owned id := by
  have sorted := site.ready.sound.sorted
  exact sorted.within_tree site.owned ((mem_tree_iff sorted).mpr (site.path.trans place.path))

theorem small {id q : NodeId} (place : Place start top id)
    (listed : q ∈ start.package.forest.outside id paragraphName tableName) :
    q < start.package.forest.nodes.size :=
  (site.ready.sound.sorted.within_outside (site.place_owned place) listed).1

/-- No paragraph is outside for two places. -/
theorem place_unique {a b p : NodeId} (place : Place start top a) (place' : Place start top b)
    (listed : p ∈ start.package.forest.outside a paragraphName tableName)
    (listed' : p ∈ start.package.forest.outside b paragraphName tableName) : a = b := by
  have sorted := site.ready.sound.sorted
  exact clear_unique sorted site.ready.sound.branching ((mem_outside_iff sorted).mp listed).2
    ((mem_outside_iff sorted).mp listed').2 place.path place'.path place.kind place'.kind

/-- What remains of the tree after paragraphs were filled. -/
theorem remains {done : List NodeId} (places : ∀ id ∈ done, Place start top id)
    (reached : Reached setup start top done earlier w) :
    Plot.Remains start.session.part start.plot (· ∈ earlier) w.plot := by
  have orderly := site.ready.sound.orderly
  apply reached.moves.remains site.ready.toPlaced (Plot.remains_self orderly _)
  intro q member
  obtain ⟨id,listed,outside⟩ := reached.homes q member
  exact site.small (places id listed) outside

/-- What has left its place has a cause. -/
private theorem left_of_remains {round : Round}
    (remains : Plot.Remains start.session.part start.plot (· ∈ earlier) w.plot)
    (state_eq : round.state = w.session) (n c : NodeId)
    (above : start.package.forest.Below root n) (here : start.package.forest.Child n c)
    (gone : ¬round.state.package.forest.Child n c) :
    c ∈ earlier ∨ start.package.forest.Spare n c := by
  have sorted := site.ready.sound.sorted
  rw [state_eq] at gone
  exact remains.causes n c (sorted.within_tree site.owned ((mem_tree_iff sorted).mpr above)) here gone

/-- A paragraph is gone when a path down to it is cut. -/
private theorem missed_of_cut {round : Round} {p n c : NodeId}
    (remains : Plot.Remains start.session.part start.plot (· ∈ earlier) w.plot)
    (state_eq : round.state = w.session) (above : start.package.forest.Below root n)
    (here : start.package.forest.Child n c) (below : start.package.forest.Below c p)
    (gone : c ∉ w.package.forest.children n) :
    round.Missed start.package.forest root earlier p := by
  have gone' : ¬round.state.package.forest.Child n c := state_eq ▸ gone
  refine ⟨?_,n,c,here,below,gone',site.left_of_remains remains state_eq n c above here gone'⟩
  rw [state_eq]
  exact remains.not_below site.owned above here below gone

section
variable {done : List NodeId} {round : Round} {mid : World}
  (places : ∀ id ∈ done, Place start top id) (place : Place start top round.element)
  (new : round.element ∉ done)
include places place new

/-- A paragraph that is outside for an element stood there at the beginning: where it was put in the
place of another one, this would have been filled in the round of the same element. -/
private theorem listed_start (reached : Reached setup start top done earlier mid) {p : NodeId}
    (listed : p ∈ mid.package.forest.outside round.element paragraphName tableName) :
    p ∈ start.package.forest.outside round.element paragraphName tableName := by
  have remains := site.remains places reached
  have sorted := site.ready.sound.sorted
  obtain ⟨kind,clear⟩ := (mem_outside_iff remains.orderly.sorted).mp listed
  rcases remains.clear_start (site.place_owned place) clear kind with ⟨old,clear⟩ | ⟨q,member,clear⟩
  · exact (mem_outside_iff sorted).mpr ⟨(remains.later.name_eq p old).symm.trans kind,clear⟩
  · obtain ⟨id,listed,outside⟩ := reached.homes q member
    have named := ((mem_outside_iff sorted).mp outside).1
    have same := site.place_unique place (places id listed)
      ((mem_outside_iff sorted).mpr ⟨named,clear⟩) outside
    exact absurd (same ▸ listed) new

private theorem fair_round (reached : Reached setup start top done earlier mid)
    (state_eq : round.state = mid.session)
    (listed : round.passed = mid.package.forest.outside round.element paragraphName tableName) :
    round.Fair start.package.forest root earlier := by
  have remains := site.remains places reached
  have sorted := site.ready.sound.sorted
  refine ⟨?_,?_,?_,site.left_of_remains remains state_eq,?_⟩
  · rw [listed]
    exact nodup_outside remains.orderly.sorted remains.orderly.branching _ _
  · intro p member
    exact site.listed_start places place new reached (listed ▸ member)
  · rw [listed,state_eq]
    intro p member
    exact ((mem_outside_iff remains.orderly.sorted).mp member).2.path
  · intro p outside omitted
    obtain ⟨kind,clear⟩ := (mem_outside_iff sorted).mp outside
    have old := site.small place outside
    rcases remains.clear_or_cut (site.place_owned place) clear with stays | ⟨n,c,path,here,below,gone⟩
    · refine absurd ?_ omitted
      rw [listed]
      exact (mem_outside_iff remains.orderly.sorted).mpr
        ⟨(remains.later.name_eq p old).trans kind,stays⟩
    · exact site.missed_of_cut remains state_eq ((site.path.trans place.path).trans path) here below
        gone

omit new in
private theorem fair_over (reached : Reached setup start top done earlier w)
    (attested : Attested start root) (kind : w.package.forest.name round.element = tableName)
    (away : w.session.index.isAttached round.element = false) (state_eq : round.state = w.session)
    (none : round.passed = []) : round.Fair start.package.forest root earlier := by
  have remains := site.remains places reached
  have sorted := site.ready.sound.sorted
  refine ⟨by simp [none],by simp [none],by simp [none],site.left_of_remains remains state_eq,
    fun p outside _ => ?_⟩
  have below := ((mem_outside_iff sorted).mp outside).2.path
  have owned := site.place_owned place
  rcases Below.or_cut w.package.forest (site.path.trans place.path) with stays | ⟨n,c,path,here,rest,gone⟩
  · -- the index would have found the table in the tree
    have named : start.package.forest.name round.element = tableName :=
      (remains.later.name_eq _ owned.1).symm.trans kind
    have attests := attested _ ((mem_named_iff sorted).mpr ⟨site.path.trans place.path,named⟩)
    have attests' : w.session.index.Attests w.package.forest round.element :=
      remains.attests attests (site.root_eq ▸ site.owned) owned.1
    have root_eq : w.session.index.root = root := remains.root_eq.trans site.root_eq
    have found := attests'.isAttached (root_eq ▸ stays)
    rw [away] at found
    exact Bool.noConfusion found
  · exact site.missed_of_cut remains state_eq path here (rest.trans below) gone

end

omit site in
/-- The rounds after one are those of a run that has come past it. -/
private theorem fair_cons {done : List NodeId} {round : Round} {rounds : List Round} {w' : World}
    (first : round.Fair start.package.forest root earlier)
    (rest : (∀ before round' after, rounds = before ++ round' :: after →
      round'.Fair start.package.forest root ((earlier ++ round.passed) ++ passed before)) ∧
        Reached setup start top ((done ++ [round.element]) ++ rounds.map (·.element))
          ((earlier ++ round.passed) ++ passed rounds) w') :
    (∀ before round' after, round :: rounds = before ++ round' :: after →
      round'.Fair start.package.forest root (earlier ++ passed before)) ∧
    Reached setup start top (done ++ (round :: rounds).map (·.element))
      (earlier ++ passed (round :: rounds)) w' := by
  have passed_cons (rounds : List Round) : passed (round :: rounds) = round.passed ++ passed rounds :=
    List.flatMap_cons
  constructor
  · intro before round' after split
    cases before with
    | nil =>
      obtain ⟨rfl,_⟩ := List.cons.inj split
      simpa [passed] using first
    | cons _ before =>
      obtain ⟨rfl,split'⟩ := List.cons.inj split
      rw [passed_cons,← List.append_assoc]
      exact rest.1 before round' after split'
  · have reached := rest.2
    rw [List.append_assoc,List.append_assoc] at reached
    rwa [passed_cons]

/-- All rounds of a run are fair. -/
theorem fair {checked : Bool} {done : List NodeId} {rounds : List Round} {w' : World}
    (courses : Courses setup start.package.forest.nodes.size checked w rounds w')
    (reached : Reached setup start top done earlier w)
    (places : ∀ id ∈ done ++ rounds.map (·.element), Place start top id)
    (nodup : (done ++ rounds.map (·.element)).Nodup)
    (attested : checked = true → Attested start root) :
    (∀ before round after, rounds = before ++ round :: after →
      round.Fair start.package.forest root (earlier ++ passed before)) ∧
    Reached setup start top (done ++ rounds.map (·.element)) (earlier ++ passed rounds) w' := by
  induction courses generalizing done earlier with
  | nil =>
    refine ⟨fun before round after split => by simp at split,?_⟩
    simpa [passed] using reached
  | @omitted w w' round rounds optional kind away state_eq none rest ih =>
    have places_done : ∀ id ∈ done, Place start top id := fun id member =>
      places id (List.mem_append_left _ member)
    have first := site.fair_over places_done (places _ (by simp)) reached
      (attested optional) kind away state_eq none
    refine fair_cons first (ih (reached.pass ReflTransGen.refl first.listed) ?_ ?_)
    · rwa [List.append_assoc]
    · rwa [List.append_assoc]
  | @round w mid w' w'' round rounds before state_eq listed after rest ih =>
    have places_done : ∀ id ∈ done, Place start top id := fun id member =>
      places id (List.mem_append_left _ member)
    have new : round.element ∉ done := by
      rw [List.map_cons,List.nodup_append] at nodup
      intro member
      exact nodup.2.2 _ member _ List.mem_cons_self rfl
    have reached_mid : Reached setup start top done earlier mid :=
      ⟨reached.moves.trans (before.widen ⟨Nat.le_refl _,fun _ _ => False.elim⟩),reached.homes⟩
    have first := site.fair_round places_done (places _ (by simp)) new reached_mid state_eq listed
    refine fair_cons first (ih (reached_mid.pass after first.listed) ?_ ?_)
    · rwa [List.append_assoc]
    · rwa [List.append_assoc]

/-- The rounds of a whole run fill no paragraph twice, as each is fair and they have different
elements. -/
theorem fair_run {checked : Bool} {rounds : List Round}
    (courses : Courses setup start.package.forest.nodes.size checked start rounds w)
    (places : ∀ round ∈ rounds, Place start top round.element)
    (nodup : (rounds.map (·.element)).Nodup)
    (attested : checked = true → Attested start root) :
    (passed rounds).Nodup ∧
    (∀ before round after, rounds = before ++ round :: after →
      round.Fair start.package.forest root (passed before)) ∧
    Moves setup ⟨start.package.forest.nodes.size,fun q _ => q ∈ passed rounds⟩ start w := by
  have begun : Reached setup start top [] [] start := ⟨ReflTransGen.refl,by simp⟩
  have places' : ∀ id ∈ rounds.map (·.element), Place start top id := by
    intro id member
    obtain ⟨round,listed,rfl⟩ := List.mem_map.mp member
    exact places round listed
  obtain ⟨fair,reached⟩ := site.fair courses begun places' nodup attested
  refine ⟨?_,fair,reached.moves⟩
  have each : ∀ round ∈ rounds, ∃ earlier, round.Fair start.package.forest root earlier := by
    intro round member
    obtain ⟨before,after,split⟩ := List.append_of_mem member
    exact ⟨_,fair before round after split⟩
  have different : rounds.Pairwise fun a b => a.element ≠ b.element := List.pairwise_map.mp nodup
  rw [passed,List.nodup_flatMap]
  refine ⟨fun round member => (each round member).elim fun _ fair => fair.nodup,?_⟩
  apply different.imp_of_mem
  intro a b member member' different p listed listed'
  obtain ⟨_,fair_a⟩ := each a member
  obtain ⟨_,fair_b⟩ := each b member'
  exact different (site.place_unique (places a member) (places b member') (fair_a.listed listed)
    (fair_b.listed listed'))

end Site
end MailMerge.Fill
