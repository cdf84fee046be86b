import MailMerge.Data.Yaml.Kind
import MailMerge.Data.Yaml.Token

/-! The nodes of indented text: scalars of a kind, lists and mappings. A node with an anchor can
stand again under its name, but not inside itself.
-/
namespace MailMerge.Yaml

/-- A node. Keys of mappings are nodes as well. -/
inductive Node where
  | scalar (kind : Kind) (text : String)
  | list (items : List Node)
  | map (entries : List (Node × Node))
  deriving Repr, Inhabited

namespace Node

/-- The unread tokens and the anchors met so far. An anchor has no node until the node ends. -/
structure Stock where
  tokens : List Token
  anchors : List (String × Option Node) := []

/-- Steps of reading nodes from tokens. -/
abbrev Reading := StateT Stock Option

/-- The next token. -/
def peek : Reading (Option Token) :=
  return (← get).tokens.head?

/-- Passes a token. -/
def pass : Reading Unit :=
  modify fun s => { s with tokens := s.tokens.tail }

/-- Passes a token if it comes next. -/
def passIf (token : Token) : Reading Bool := do
  let next := (← peek) == some token
  if next then pass
  return next

/-- One of some tokens comes next. -/
def isNext (tokens : List Token) : Reading Bool :=
  return (← peek).any tokens.contains

/-- The node that was read under a name. -/
def named (name : String) : Reading Node := do
  match (← get).anchors.lookup name with
  | some (some n) => return n
  | _ => failure

/-- Sets the node of an anchor. -/
def setAnchor (name : String) (node : Option Node) : Reading Unit :=
  modify fun s => { s with anchors := (name, node) :: s.anchors }

/-- Reads the anchor and the tag before a node, each at most once. -/
def properties : Reading (Option String × Option TagWord) := do
  match ← peek with
  | some (.anchor name) =>
    pass
    match ← peek with
    | some (.tag word) => do pass; return (some name, some word)
    | _ => return (some name, none)
  | some (.tag word) =>
    pass
    match ← peek with
    | some (.anchor name) => do pass; return (some name, some word)
    | _ => return (none, some word)
  | _ => return (none, none)

/-- The kind that a tag gives, if it names one. -/
def tagged (tag : Option TagWord) : Reading (Option Kind) :=
  match tag with
  | some (.named name) =>
    match Kind.ofName? name with
    | some kind => return some kind
    | none => failure
  | _ => return none

/-- The kind of a scalar: that of its tag, or what it shows when it is plain, or text. -/
def scalarKind (tag : Option TagWord) (text : String) (isPlain : Bool) : Reading Kind := do
  match ← tagged tag with
  | some kind => return kind
  | none => return if isPlain || tag.isSome then Kind.ofPlain text else .text

/-- Passes a collection whose tag fits it. -/
def collection (tag : Option TagWord) (kind : Kind) (node : Node) : Reading Node := do
  match ← tagged tag with
  | some named => if named == kind then return node else failure
  | none => return node

/-- What stands where nothing is written. -/
def absent : Node :=
  .scalar .null ""

/-- Where a node may stand: its blocks, and items that are indented like the key before them. -/
inductive Site where
  | flow
  | block
  | afterKey
  deriving DecidableEq, Repr

mutual

/-- Reads a node. -/
def node : Nat → Site → Reading Node
  | 0, _ => failure
  | room + 1, site => do
    if let some (.alias name) ← peek then
      pass
      named name
    else
      let (anchor, tag) ← properties
      if let some name := anchor then
        if ((← get).anchors.lookup name).isSome then failure
        setAnchor name none
      let found ← content room site tag anchor.isSome
      if let some name := anchor then setAnchor name (some found)
      return found

/-- Reads what follows the properties of a node. -/
def content : Nat → Site → Option TagWord → Bool → Reading Node
  | 0, _, _, _ => failure
  | room + 1, site, tag, anchored => do
    match ← peek with
    | some (.scalar text isPlain) =>
      pass
      return .scalar (← scalarKind tag text isPlain) text
    | some .listOpen =>
      pass
      collection tag .list (.list (← flowItems room true))
    | some .mapOpen =>
      pass
      collection tag .map (.map (← flowEntries room true))
    | some .sequenceStart =>
      if site == .flow then failure
      pass
      collection tag .list (.list (← items room true))
    | some .mappingStart =>
      if site == .flow then failure
      pass
      collection tag .map (.map (← entries room))
    | some .entry =>
      if site == .afterKey then collection tag .list (.list (← items room false))
      else if tag.isSome || anchored then return .scalar (← scalarKind tag "" true) ""
      else failure
    | _ =>
      if tag.isSome || anchored then return .scalar (← scalarKind tag "" true) "" else failure

/-- Reads the items of a block list, which ends with a token of its own or just with its last
item. -/
def items : Nat → Bool → Reading (List Node)
  | 0, _ => failure
  | room + 1, closed => do
    if ← passIf .entry then
      let gap ← isNext (if closed then [.entry, .blockEnd] else [.entry, .key, .value, .blockEnd])
      let item ← if gap then pure absent else node room .block
      return item :: (← items room closed)
    else if !closed then return []
    else if ← passIf .blockEnd then return []
    else failure

/-- Reads the entries of a block mapping. -/
def entries : Nat → Reading (List (Node × Node))
  | 0 => failure
  | room + 1 => do
    if ← passIf .key then
      let k ← blockPart room
      let v ← if ← passIf .value then blockPart room else pure absent
      return (k, v) :: (← entries room)
    else if ← passIf .blockEnd then return []
    else failure

/-- Reads a key or a value of a block mapping; it may be missing. -/
def blockPart : Nat → Reading Node
  | 0 => failure
  | room + 1 => do
    if ← isNext [.key, .value, .blockEnd] then return absent
    else node room .afterKey

/-- Reads the items of a list between brackets. An item may be a single entry of a mapping. -/
def flowItems : Nat → Bool → Reading (List Node)
  | 0, _ => failure
  | room + 1, first => do
    if ← passIf .listClose then return []
    else
      let separated ← if first then pure true else passIf .comma
      if !separated then failure
      if ← passIf .key then
        let k ← flowPart room [.value, .comma, .listClose]
        let v ← if ← passIf .value then flowPart room [.comma, .listClose] else pure absent
        return .map [(k, v)] :: (← flowItems room false)
      else if ← passIf .listClose then return []
      else
        let item ← node room .flow
        return item :: (← flowItems room false)

/-- Reads the entries of a mapping between brackets. A key may come without a value. -/
def flowEntries : Nat → Bool → Reading (List (Node × Node))
  | 0, _ => failure
  | room + 1, first => do
    if ← passIf .mapClose then return []
    else
      let separated ← if first then pure true else passIf .comma
      if !separated then failure
      if ← passIf .key then
        let k ← flowPart room [.value, .comma, .mapClose]
        let v ← if ← passIf .value then flowPart room [.comma, .mapClose] else pure absent
        return (k, v) :: (← flowEntries room false)
      else if ← passIf .mapClose then return []
      else
        let k ← node room .flow
        return (k, absent) :: (← flowEntries room false)

/-- Reads a key or a value between brackets, unless one of some tokens shows that it is missing. -/
def flowPart : Nat → List Token → Reading Node
  | 0, _ => failure
  | room + 1, stops => do
    if ← isNext stops then return absent
    else node room .flow

end

/-- Reads the only document of a text, or none. -/
def document (room : Nat) : Reading (Option Node) := do
  if (← peek).isNone then return none
  let marked ← passIf .documentStart
  let empty ← isNext [.documentStart, .documentEnd]
  let root ← if marked && (empty || (← peek).isNone) then pure absent else node room .block
  let rest := (← get).tokens.dropWhile (· == .documentEnd)
  if rest.isEmpty then return some root else failure

/-- The node that tokens describe; there may be none. -/
def ofTokens? (tokens : List Token) : Option (Option Node) :=
  (document (4 * tokens.length + 4) { tokens := tokens }).map (·.1)

end Node
end MailMerge.Yaml
