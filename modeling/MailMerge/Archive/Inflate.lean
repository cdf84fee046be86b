/-! Unpacking of deflated data. The input is read bit by bit, the lowest bit of a byte first;
symbols have canonical prefix codes, and a pair of length and distance repeats earlier output.
-/
namespace MailMerge.Archive.Inflate

/-- Why unpacking stopped before the end of the data. -/
inductive Failure where
  /-- the input ends inside the data -/
  | exhausted
  /-- the input is not deflated data -/
  | malformed
  deriving DecidableEq, Repr

/-- The input with the number of bits already read, and what has been unpacked. -/
structure State where
  input : ByteArray
  position : Nat := 0
  output : ByteArray := .empty

/-- Reading and unpacking. -/
abbrev Step := EStateM Failure State

/-- Reads one bit. -/
def bit : Step Nat := do
  let s ← get
  if h : s.position / 8 < s.input.size then
    set { s with position := s.position + 1 }
    return (s.input[s.position / 8].toNat >>> (s.position % 8)) % 2
  else throw .exhausted

/-- Reads a number of bits, the lowest first. -/
def bits : Nat → Step Nat
  | 0 => return 0
  | count + 1 => do
    let low ← bit
    let high ← bits count
    return low + 2 * high

/-- A prefix code: how many symbols have each length, and the symbols in the order of their
codes. -/
structure Code where
  counts : List Nat
  symbols : Array Nat

/-- The code in which the symbol at each place has the given length; length zero means the
symbol does not occur. -/
def Code.ofLengths (lengths : List Nat) : Code where
  counts := (List.range 15).map fun n => lengths.count (n + 1)
  symbols := ((List.range 15).flatMap fun n =>
    (lengths.zipIdx.filter fun entry => entry.1 == n + 1).map (·.2)).toArray

/-- The codes that are left over at the greatest length, negative when there are too many
symbols. -/
def Code.remaining (code : Code) : Int :=
  code.counts.foldl (fun (left : Int) (count : Nat) => left * 2 - count) 1

/-- Every code occurs, or there is but one symbol and its code has one bit; no symbol at all is
allowed for distances. -/
def Code.isComplete (code : Code) : Bool :=
  code.remaining == 0 || (0 < code.remaining && code.symbols.size ≤ 1 &&
    code.counts.head? == some code.symbols.size)

/-- Reads a symbol: the code grows bit by bit until it is one of its length. -/
def symbolFrom (code : Code) (read first index : Nat) : List Nat → Step Nat
  | [] => throw .malformed
  | count :: counts => do
    let read := read + (← bit)
    if read < first + count then
      match code.symbols[index + (read - first)]? with
      | some symbol => return symbol
      | none => throw .malformed
    else symbolFrom code (read * 2) ((first + count) * 2) (index + count) counts

/-- Reads a symbol. -/
def symbol (code : Code) : Step Nat :=
  symbolFrom code 0 0 0 code.counts

/-- Appends a byte to the output. -/
def emit (b : UInt8) : Step Unit :=
  modify fun s => { s with output := s.output.push b }

/-- Repeats output from a distance back. -/
def copy (distance : Nat) : Nat → Step Unit
  | 0 => return ()
  | count + 1 => do
    let s ← get
    emit (s.output.get! (s.output.size - distance))
    copy distance count

/-- The least length and the number of further bits for each length symbol. -/
def lengthTable : List (Nat × Nat) :=
  [(3, 0), (4, 0), (5, 0), (6, 0), (7, 0), (8, 0), (9, 0), (10, 0), (11, 1), (13, 1), (15, 1),
    (17, 1), (19, 2), (23, 2), (27, 2), (31, 2), (35, 3), (43, 3), (51, 3), (59, 3), (67, 4),
    (83, 4), (99, 4), (115, 4), (131, 5), (163, 5), (195, 5), (227, 5), (258, 0)]

/-- The least distance and the number of further bits for each distance symbol. -/
def distanceTable : List (Nat × Nat) :=
  [(1, 0), (2, 0), (3, 0), (4, 0), (5, 1), (7, 1), (9, 2), (13, 2), (17, 3), (25, 3), (33, 4),
    (49, 4), (65, 5), (97, 5), (129, 6), (193, 6), (257, 7), (385, 7), (513, 8), (769, 8),
    (1025, 9), (1537, 9), (2049, 10), (3073, 10), (4097, 11), (6145, 11), (8193, 12),
    (12289, 12), (16385, 13), (24577, 13)]

/-- The number that a symbol and the bits after it denote. -/
def amount (table : List (Nat × Nat)) (symbol : Nat) : Step Nat :=
  match table[symbol]? with
  | some (least, extra) => return least + (← bits extra)
  | none => throw .malformed

/-- Unpacks symbols up to the end of a block. The fuel bounds the number of symbols. -/
def symbols (fuel : Nat) (lengths distances : Code) : Step Unit :=
  match fuel with
  | 0 => throw .exhausted
  | fuel + 1 => do
    let s ← symbol lengths
    if s < 256 then
      emit s.toUInt8
      symbols fuel lengths distances
    else if s == 256 then return ()
    else
      let length ← amount lengthTable (s - 257)
      let distance ← amount distanceTable (← symbol distances)
      if (← get).output.size < distance then throw .malformed
      copy distance length
      symbols fuel lengths distances

/-- A block of bytes as they are, which starts at a byte. -/
def stored : Step Unit := do
  modify fun s => { s with position := (s.position + 7) / 8 * 8 }
  let length ← bits 16
  let inverse ← bits 16
  if length + inverse != 0xFFFF then throw .malformed
  let rec go : Nat → Step Unit
    | 0 => return ()
    | count + 1 => do
      emit (← bits 8).toUInt8
      go count
  go length

/-- The code for literals and lengths of a block without a code of its own. -/
def fixedLengths : Code :=
  .ofLengths (List.replicate 144 8 ++ List.replicate 112 9 ++ List.replicate 24 7 ++
    List.replicate 8 8)

/-- The code for distances of a block without a code of its own. -/
def fixedDistances : Code :=
  .ofLengths (List.replicate 30 5)

/-- The order in which the lengths of the code for code lengths are written. -/
def codeOrder : List Nat :=
  [16, 17, 18, 0, 8, 7, 9, 6, 10, 5, 11, 4, 12, 3, 13, 2, 14, 1, 15]

/-- Reads code lengths until there are `count`, the last first; runs of equal lengths are
written as one symbol. -/
def lengthsFrom (fuel : Nat) (code : Code) (count : Nat) (found : List Nat) : Step (List Nat) :=
  match fuel with
  | 0 => throw .malformed
  | fuel + 1 => do
    if found.length == count then return found
    let s ← symbol code
    if s < 16 then lengthsFrom fuel code count (s :: found)
    else
      let (value, times) ← match s with
        | 16 => match found with
          | last :: _ => pure (last, 3 + (← bits 2))
          | [] => throw .malformed
        | 17 => pure (0, 3 + (← bits 3))
        | _ => pure (0, 11 + (← bits 7))
      if count < found.length + times then throw .malformed
      lengthsFrom fuel code count (List.replicate times value ++ found)

/-- Reads the codes of a block. -/
def codes : Step (Code × Code) := do
  let lengths := (← bits 5) + 257
  let distances := (← bits 5) + 1
  let written := (← bits 4) + 4
  if 286 < lengths || 30 < distances then throw .malformed
  let codeLengths ← (List.replicate written ()).mapM fun _ => bits 3
  let given := codeOrder.zip codeLengths
  let code := Code.ofLengths ((List.range 19).map fun n => (given.lookup n).getD 0)
  if code.remaining != 0 then throw .malformed
  let found := (← lengthsFrom (lengths + distances + 1) code (lengths + distances) []).reverse
  if found[256]? == some 0 then throw .malformed
  let forLengths := Code.ofLengths (found.take lengths)
  let forDistances := Code.ofLengths (found.drop lengths)
  if !forLengths.isComplete || !forDistances.isComplete then throw .malformed
  return (forLengths, forDistances)

/-- Unpacks blocks up to the last one. -/
def blocks (fuel : Nat) : Step Unit :=
  match fuel with
  | 0 => throw .exhausted
  | fuel + 1 => do
    let last ← bit
    match ← bits 2 with
    | 0 => stored
    | 1 => symbols (fuel + 1) fixedLengths fixedDistances
    | 2 =>
      let (lengths, distances) ← codes
      symbols (fuel + 1) lengths distances
    | _ => throw .malformed
    if last == 1 then return () else blocks fuel

/-- Unpacks deflated data: what was unpacked, and why it stopped early if it did. -/
def inflate (input : ByteArray) : ByteArray × Option Failure :=
  match (blocks (8 * input.size + 1)).run { input := input } with
  | .ok _ s => (s.output, none)
  | .error failure s => (s.output, some failure)

end MailMerge.Archive.Inflate
