import MailMerge.Proofs.Docx.Shown
import MailMerge.Proofs.Tree.Branching

/-! Table cells end with a paragraph. All that the engine builds keeps to this, and the nodes that are
planted for an element have the names and the children of what they stand for.
-/
namespace MailMerge
open Xml Docx

namespace Docx

/-- The last of some names is that of a paragraph. -/
def EndsWell (names : List Name) : Prop :=
  names.getLast? = some paragraphName

/-- The cells in an element end with a paragraph. -/
def Closed (e : Element) : Prop :=
  ∀ x ∈ e.descendants, x.name = cellName → EndsWell (x.children.map Element.name)

/-- Nothing in an element has a name. -/
def Lacks (name : Name) (e : Element) : Prop :=
  ∀ x ∈ e.descendants, x.name ≠ name

/-- There are no paragraphs and no tables in an element. -/
def Plain (e : Element) : Prop :=
  Lacks paragraphName e ∧ Lacks tableName e

section
variable (name : Name) (attributes : Attributes) (text tail : Option String)
  (children : List Element)

@[simp] theorem closed_mk : Closed (.mk name attributes text children tail) ↔
    (name = main "tc" → EndsWell (children.map Element.name)) ∧ ∀ e ∈ children, Closed e := by
  simp only [Closed,Element.descendants_mk,List.forall_mem_cons,Element.name,Element.children,
    List.forall_mem_flatMap]
  rfl

@[simp] theorem lacks_mk (other : Name) : Lacks other (.mk name attributes text children tail) ↔
    name ≠ other ∧ ∀ e ∈ children, Lacks other e := by
  simp only [Lacks,Element.descendants_mk,List.forall_mem_cons,Element.name,List.forall_mem_flatMap]

end

/-- No name of drawings, shapes or pictures is one of text and layout. -/
private theorem ne_main {space : String} (other : space ≠ mainSpace) (stem stem' : String) :
    Name.within space stem ≠ main stem' := by
  simp [main,Name.within,other]

@[simp] theorem place_ne_main (stem stem' : String) : place stem ≠ main stem' :=
  ne_main (by decide) stem stem'

@[simp] theorem drawing_ne_main (stem stem' : String) : drawing stem ≠ main stem' :=
  ne_main (by decide) stem stem'

@[simp] theorem picture_ne_main (stem stem' : String) : picture stem ≠ main stem' :=
  ne_main (by decide) stem stem'

@[simp] theorem chart_ne_main (stem stem' : String) : chart stem ≠ main stem' :=
  ne_main (by decide) stem stem'

@[simp] theorem drawing14_ne_main (stem stem' : String) :
    .within drawing14Space stem ≠ main stem' :=
  ne_main (by decide) stem stem'

@[simp] theorem main_eq_main (stem stem' : String) : main stem = main stem' ↔ stem = stem' := by
  simp [main,Name.within]

@[simp] theorem name_node (name : Name) (attributes : Attributes) (children : List Element) :
    (Element.node name attributes children).name = name := rfl

@[simp] theorem name_paragraph (runs : List Element) : (paragraph runs).name = paragraphName := rfl

@[simp] theorem closed_node (name : Name) (attributes : Attributes) (children : List Element) :
    Closed (.node name attributes children) ↔
      (name = main "tc" → EndsWell (children.map Element.name)) ∧ ∀ e ∈ children, Closed e :=
  closed_mk name attributes none none children

@[simp] theorem closed_plainNode (name : Name) (attributes : List (String × String))
    (children : List Element) : Closed (plainNode name attributes children) ↔
      (name = main "tc" → EndsWell (children.map Element.name)) ∧ ∀ e ∈ children, Closed e :=
  closed_node name _ children

@[simp] theorem lacks_node (other name : Name) (attributes : Attributes)
    (children : List Element) : Lacks other (.node name attributes children) ↔
      name ≠ other ∧ ∀ e ∈ children, Lacks other e :=
  lacks_mk name attributes none none children other

@[simp] theorem lacks_plainNode (other name : Name) (attributes : List (String × String))
    (children : List Element) : Lacks other (plainNode name attributes children) ↔
      name ≠ other ∧ ∀ e ∈ children, Lacks other e :=
  lacks_node other name _ children

@[simp] theorem closed_leaf (name : Name) (attributes : Attributes) (text : String)
    (other : name ≠ main "tc") : Closed (.leaf name attributes text) := by
  simp [Element.leaf,other]

@[simp] theorem closed_paragraph (runs : List Element) :
    Closed (paragraph runs) ↔ ∀ run ∈ runs, Closed run := by
  simp [paragraph,paragraphName]

theorem closed_textElement (text : String) : Closed (textElement text) := by
  simp [textElement,textName]

@[simp] theorem closed_textRun (text : String) (bold : Bool) : Closed (textRun text bold) := by
  cases bold <;> simp [textRun,runName,closed_textElement]

theorem plain_textRun (text : String) : Plain (textRun text) := by
  simp [Plain,textRun,textElement,Element.leaf,runName,textName,paragraphName,tableName]

theorem plain_leaf {name : Name} {attributes : Attributes} (paragraph : name ≠ paragraphName)
    (table : name ≠ tableName) : Plain (.node name attributes []) := by
  simp [Plain,paragraph,table]

theorem lacks_table_pageBreak : Lacks tableName pageBreak := by
  simp [pageBreak,paragraph,paragraphName,runName,tableName]

theorem lacks_table_emptyParagraph : Lacks tableName (paragraph []) := by
  simp [paragraph,paragraphName,tableName]

theorem closed_row (texts : List String) (bold : Bool) : Closed (Table.row texts bold) := by
  simp [Table.row,rowName,EndsWell]

theorem closed_table {s : Settings} {rows : List Value} {e : Element}
    (built : Table.build s rows = .ok e) : Closed e := by
  unfold Table.build at built
  split at built
  · simp at built
  · obtain ⟨body,_,built⟩ := exists_of_bind_eq_ok built
    obtain rfl := Except.ok.inj built
    simp [tableName,Table.properties,Table.borders,Table.grid,closed_row]
  · simp at built

theorem name_table {s : Settings} {rows : List Value} {e : Element}
    (built : Table.build s rows = .ok e) : e.name = tableName := by
  unfold Table.build at built
  split at built
  · simp at built
  · obtain ⟨body,_,built⟩ := exists_of_bind_eq_ok built
    obtain rfl := Except.ok.inj built
    rfl
  · simp at built

theorem Built.closed {s : Settings} {e : Element} (built : Built s e) : Closed e := by
  cases built with
  | textRun text => exact closed_textRun text false
  | table rows e built => exact closed_table built
  | emptyParagraph => simp
  | pageBreak => simp [Docx.pageBreak,runName]
  | cellLook | runLook | bold => simp
  | shading fill => simp

/-- All that is built but tables holds no table. -/
theorem Built.lacks_table {s : Settings} {e : Element} (built : Built s e) :
    Lacks tableName e ∨ ∃ rows, Table.build s rows = .ok e := by
  cases built with
  | textRun text => exact Or.inl (plain_textRun text).2
  | table rows e built => exact Or.inr ⟨rows,built⟩
  | emptyParagraph => exact Or.inl lacks_table_emptyParagraph
  | pageBreak => exact Or.inl lacks_table_pageBreak
  | cellLook | runLook | bold | shading => exact Or.inl (by simp [tableName])

theorem closed_picture (key : String) (extent : Extent) (number : String) :
    Closed (pictureParagraph key extent number) := by
  simp [pictureParagraph,inlineDrawing,runName,graphic,noEffect,frameLocks,boundlessRectangle]

theorem closed_chart (key : String) (extent : Extent) (caption : Caption) :
    Closed (chartParagraph key extent caption) := by
  simp [chartParagraph,inlineDrawing,runName,graphic,noEffect,frameLocks]

theorem lacks_table_picture (key : String) (extent : Extent) (number : String) :
    Lacks tableName (pictureParagraph key extent number) := by
  simp [pictureParagraph,inlineDrawing,paragraph,paragraphName,runName,graphic,noEffect,frameLocks,
    boundlessRectangle,tableName]

theorem lacks_table_chart (key : String) (extent : Extent) (caption : Caption) :
    Lacks tableName (chartParagraph key extent caption) := by
  simp [chartParagraph,inlineDrawing,paragraph,paragraphName,runName,graphic,noEffect,frameLocks,
    tableName]

end Docx

namespace Forest

/-- A node stands for an element: it has its name, and its children have the names of the element's. -/
structure Copies (f : Forest) (id : NodeId) (e : Element) : Prop where
  name_eq : f.name id = e.name
  children_eq : (f.children id).map f.name = e.children.map Element.name

theorem Grown.name_eq {f g : Forest} (grown : Grown f g) {id : NodeId}
    (old : id < f.nodes.size) : g.name id = f.name id := by
  rw [name,grown.node_eq id old,name]

/-- A node goes on to stand for an element while nodes are added after all others. -/
theorem Copies.mono {f g : Forest} {id : NodeId} {e : Element} (copies : f.Copies id e)
    (same : ∀ n, n < f.nodes.size → g.node n = f.node n) (old : id < f.nodes.size)
    (below : ∀ child ∈ f.children id, child < f.nodes.size) : g.Copies id e where
  name_eq := by
    rw [name,same id old]
    exact copies.name_eq
  children_eq := by
    rw [children,same id old,← copies.children_eq]
    apply List.map_congr_left
    intro child member
    rw [name,same child (below child member),name]

mutual

/-- The nodes added for an element stand for what is below it. -/
theorem copies_plant (f : Forest) (e : Element) :
    (f.plant e).2.name (f.plant e).1 = e.name ∧ ∀ id : Nat, f.nodes.size ≤ id →
      id < (f.plant e).2.nodes.size → ∃ x ∈ e.descendants, (f.plant e).2.Copies id x := by
  cases e with
  | mk name attributes text children tail =>
    obtain ⟨names,copies⟩ := copies_plantAll f children
    obtain ⟨grown,inside⟩ := grown_plantAll f children
    have last : (f.plant (.mk name attributes text children tail)).2.node
        (f.plantAll children).2.nodes.size = ⟨name,attributes,text,(f.plantAll children).1,tail⟩ := by
      simp [plant,node_add]
    have same : ∀ n, n < (f.plantAll children).2.nodes.size →
        (f.plant (.mk name attributes text children tail)).2.node n =
          (f.plantAll children).2.node n := by
      intro n old
      simp [plant,node_add,Nat.ne_of_lt old]
    refine ⟨congrArg Node.name last,?_⟩
    intro id new inside'
    rw [Element.descendants_mk]
    by_cases here : id = (f.plantAll children).2.nodes.size
    · subst here
      refine ⟨_,List.mem_cons_self,congrArg Node.name last,?_⟩
      rw [Forest.children,last,Element.children,← names]
      apply List.map_congr_left
      intro child member
      rw [Forest.name,same child (inside child member).2,Forest.name]
    · have old : id < (f.plantAll children).2.nodes.size := by
        simp only [plant,size_add] at inside'
        omega
      obtain ⟨x,member,copied⟩ := copies id new old
      refine ⟨x,List.mem_cons_of_mem _ (Element.descendantsOf_eq_flatMap _ ▸ member),
        copied.mono same old ?_⟩
      intro child below
      exact Nat.lt_trans (grown.children_new id child new below).2 old

theorem copies_plantAll (f : Forest) (es : List Element) :
    (f.plantAll es).1.map (f.plantAll es).2.name = es.map Element.name ∧
      ∀ id : Nat, f.nodes.size ≤ id → id < (f.plantAll es).2.nodes.size →
        ∃ x ∈ Element.descendantsOf es, (f.plantAll es).2.Copies id x := by
  cases es with
  | nil =>
    refine ⟨by simp [plantAll],?_⟩
    intro id new inside
    simp only [plantAll] at inside
    omega
  | cons e es =>
    obtain ⟨grown,_,last⟩ := grown_plant f e
    obtain ⟨grown',_⟩ := grown_plantAll (f.plant e).2 es
    obtain ⟨name_eq,copies⟩ := copies_plant f e
    obtain ⟨names,copies'⟩ := copies_plantAll (f.plant e).2 es
    simp only [plantAll,List.map_cons,names,List.cons.injEq,and_true,Element.descendantsOf]
    refine ⟨(grown'.name_eq (Nat.lt_of_succ_le (Nat.le_of_eq last))).trans name_eq,?_⟩
    intro id new inside
    rcases Nat.lt_or_ge id (f.plant e).2.nodes.size with old | new'
    · obtain ⟨x,member,copied⟩ := copies id new old
      refine ⟨x,List.mem_append_left _ member,copied.mono grown'.node_eq old ?_⟩
      intro child below
      exact Nat.lt_trans (grown.children_new id child new below).2 old
    · obtain ⟨x,member,copied⟩ := copies' id new' inside
      exact ⟨x,List.mem_append_right _ member,copied⟩

end

/-- An element ends with a paragraph. -/
def EndsWithParagraph (f : Forest) (id : NodeId) : Prop :=
  EndsWell ((f.children id).map f.name)

/-- The cells that are planted end with a paragraph. -/
theorem endsWithParagraph_plant (f : Forest) {e : Element} (closed : Closed e) {id : NodeId}
    (new : f.nodes.size ≤ id) (cell : (f.plant e).2.name id = cellName) :
    (f.plant e).2.EndsWithParagraph id := by
  rcases Nat.lt_or_ge id (f.plant e).2.nodes.size with inside | large
  · obtain ⟨x,member,copies⟩ := (copies_plant f e).2 id new inside
    rw [EndsWithParagraph,copies.children_eq]
    exact closed x member (copies.name_eq.symm.trans cell)
  · rw [name,node_of_size_le _ large] at cell
    exact absurd cell (by decide)

/-- No element with a name is planted with an element that has none. -/
theorem name_ne_plant (f : Forest) {name : Name} (different : name ≠ .bare "") {e : Element}
    (lacks : Lacks name e) {id : NodeId} (new : f.nodes.size ≤ id) :
    (f.plant e).2.name id ≠ name := by
  rcases Nat.lt_or_ge id (f.plant e).2.nodes.size with inside | large
  · obtain ⟨x,member,copies⟩ := (copies_plant f e).2 id new inside
    rw [copies.name_eq]
    exact lacks x member
  · rw [Forest.name,node_of_size_le _ large]
    exact different.symm

end Forest
end MailMerge
