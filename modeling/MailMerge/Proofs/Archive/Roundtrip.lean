import MailMerge.Archive.Writer
import MailMerge.Proofs.Fault
import Mathlib.Algebra.GroupWithZero.Nat
import Mathlib.Data.List.Basic
import Mathlib.Data.List.Nodup
import Mathlib.Data.List.TakeWhile

/-! Reading what was written. Each record of an archive stands where the directory says and its fields are
read as they were written, so every entry comes back under its name.
-/
namespace MailMerge.Archive

/-- Some bytes stand at a position. -/
def StandsAt (bytes : ByteArray) (i : Nat) (piece : List UInt8) : Prop :=
  ∃ before after, bytes.data.toList = before ++ (piece ++ after) ∧ before.length = i

/-- A number is written at a place of a record. -/
def Field (record : List UInt8) (k width n : Nat) : Prop :=
  (record.drop k).take width = number width n

variable {bytes : ByteArray} {i k n : Nat} {piece piece' : List UInt8}

theorem Field.getElem?_eq {width j : Nat} (field : Field piece k width n) (inside : j < width) :
    piece[k + j]? = (number width n)[j]? := by
  rw [← field,List.getElem?_take,if_pos inside,List.getElem?_drop]

namespace StandsAt

theorem left (stands : StandsAt bytes i (piece ++ piece')) : StandsAt bytes i piece := by
  obtain ⟨before,after,split,same⟩ := stands
  exact ⟨before,piece' ++ after,by rw [split,List.append_assoc],same⟩

theorem right (stands : StandsAt bytes i (piece ++ piece')) :
    StandsAt bytes (i + piece.length) piece' := by
  obtain ⟨before,after,split,rfl⟩ := stands
  exact ⟨before ++ piece,after,by simp [split],List.length_append⟩

theorem le_size (stands : StandsAt bytes i piece) : i + piece.length ≤ bytes.size := by
  obtain ⟨before,after,split,rfl⟩ := stands
  have size : bytes.data.toList.length = bytes.size := rfl
  rw [← size,split]
  simp only [List.length_append]
  omega

theorem byteAt_eq (stands : StandsAt bytes i piece) {x : UInt8} (here : piece[k]? = some x) :
    byteAt bytes (i + k) = x.toNat := by
  obtain ⟨inside,rfl⟩ := List.getElem?_eq_some_iff.mp here
  have small : i + k < bytes.size := Nat.lt_of_lt_of_le (Nat.add_lt_add_left inside i) stands.le_size
  obtain ⟨before,after,split,rfl⟩ := stands
  have found : bytes.data.toList[before.length + k]? = some piece[k] := by
    rw [split,List.getElem?_append_right (Nat.le_add_right _ _),Nat.add_sub_cancel_left,
      List.getElem?_append_left inside,here]
  rw [byteAt,dif_pos small]
  obtain ⟨_,same⟩ := List.getElem?_eq_some_iff.mp found
  exact congrArg UInt8.toNat same

theorem hasMark_eq (stands : StandsAt bytes i piece) {first second : UInt8}
    (marked : piece.take 4 = [0x50,0x4B,first,second]) :
    hasMark bytes i first.toNat second.toNat = true := by
  have found (j : Nat) (inside : j < 4) : piece[j]? = [0x50,0x4B,first,second][j]? := by
    rw [← marked,List.getElem?_take,if_pos inside]
  have zero : byteAt bytes i = 0x50 := stands.byteAt_eq (found 0 (by decide))
  have one := stands.byteAt_eq (found 1 (by decide))
  have two := stands.byteAt_eq (found 2 (by decide))
  have three := stands.byteAt_eq (found 3 (by decide))
  simp [hasMark,zero,one,two,three]

theorem short_eq (stands : StandsAt bytes i piece) (field : Field piece k 2 n) (small : n < 65536) :
    short bytes (i + k) = n := by
  have low : byteAt bytes (i + k) = n.toUInt8.toNat :=
    stands.byteAt_eq (field.getElem?_eq (j := 0) (by decide))
  have high := stands.byteAt_eq (field.getElem?_eq (j := 1) (by decide))
  rw [short,low,Nat.add_assoc,high]
  simp only [UInt8.toNat_ofNat',Nat.toUInt8_eq]
  omega

theorem long_eq (stands : StandsAt bytes i piece) (field : Field piece k 4 n)
    (small : n < 4294967296) : long bytes (i + k) = n := by
  have first : byteAt bytes (i + k) = n.toUInt8.toNat :=
    stands.byteAt_eq (field.getElem?_eq (j := 0) (by decide))
  have second := stands.byteAt_eq (field.getElem?_eq (j := 1) (by decide))
  have third := stands.byteAt_eq (field.getElem?_eq (j := 2) (by decide))
  have fourth := stands.byteAt_eq (field.getElem?_eq (j := 3) (by decide))
  simp only [long,short,first,Nat.add_assoc,second,third,fourth]
  simp only [UInt8.toNat_ofNat',Nat.toUInt8_eq]
  omega

theorem extract_eq (stands : StandsAt bytes i piece) :
    bytes.extract i (i + piece.length) = ⟨piece.toArray⟩ := by
  obtain ⟨before,after,split,rfl⟩ := stands
  apply ByteArray.ext
  apply Array.toList_inj.mp
  simp [ByteArray.data_extract,split]

end StandsAt

/-- The record before the name of an entry. -/
def entryRecord (name : String) (data : ByteArray) : List UInt8 :=
  [0x50,0x4B,3,4] ++ sharedFields name data

/-- The record before the name of a listing. -/
def listingRecord (name : String) (data : ByteArray) (start : Nat) : List UInt8 :=
  [0x50,0x4B,1,2] ++ number 2 20 ++ sharedFields name data ++ number 2 0 ++ number 2 0 ++
    number 2 0 ++ number 4 0 ++ number 4 start

/-- The record at the end of an archive. -/
def closingRecord (count directory body : Nat) : List UInt8 :=
  [0x50,0x4B,5,6] ++ number 2 0 ++ number 2 0 ++ number 2 count ++ number 2 count ++
    number 4 directory ++ number 4 body ++ number 2 0

/-- The bytes of a name. -/
def nameBytes (name : String) : List UInt8 :=
  name.toUTF8.data.toList

theorem length_nameBytes (name : String) : (nameBytes name).length = name.utf8ByteSize :=
  rfl

theorem toList_entryBytes (name : String) (data : ByteArray) :
    (entryBytes name data).data.toList =
      entryRecord name data ++ (nameBytes name ++ data.data.toList) := by
  simp [entryBytes,entryRecord,nameBytes]

theorem toList_listingBytes (name : String) (data : ByteArray) (start : Nat) :
    (listingBytes name data start).data.toList =
      listingRecord name data start ++ nameBytes name := by
  simp [listingBytes,listingRecord,nameBytes]

theorem toList_write (entries : Entries) : (write entries).data.toList =
    (bodyBytes 0 entries).1.data.toList ++ ((bodyBytes 0 entries).2.data.toList ++
      closingRecord entries.length (bodyBytes 0 entries).2.size (bodyBytes 0 entries).1.size) := by
  simp [write,closingRecord]

/-- How an entry that starts at a position is listed. -/
def listing (name : String) (data : ByteArray) (start : Nat) : Listing :=
  ⟨name,nameFlags name,0,checksum data,data.size,data.size,start⟩

/-- How entries are listed, the first of which starts at a position. -/
def listed (start : Nat) : Entries → List Listing
  | [] => []
  | (name,data) :: rest => listing name data start :: listed (start + (entryBytes name data).size) rest

theorem size_entryBytes (name : String) (data : ByteArray) :
    (entryBytes name data).size = 30 + name.utf8ByteSize + data.size := by
  have size := congrArg List.length (toList_entryBytes name data)
  rw [List.length_append,List.length_append] at size
  exact size.trans (Nat.add_assoc 30 name.utf8ByteSize data.size).symm

/-- A name can be written: it is short, it ends nowhere before its end, and it is no folder's. -/
structure IsWritable (name : String) : Prop where
  short : name.utf8ByteSize < 65536
  whole : shortName name = name
  folder : name.toList.getLast? ≠ some '/'

private theorem toList_loop (bytes : ByteArray) (i : Nat) (r : List UInt8) :
    ByteArray.toList.loop bytes i r = r.reverse ++ bytes.data.toList.drop i := by
  fun_induction ByteArray.toList.loop bytes i r with
  | case1 i r small ih =>
    have small' : i < bytes.data.toList.length := small
    have here : bytes.get! i = bytes.data.toList[i] := getElem!_pos bytes.data i small
    rw [ih,List.drop_eq_getElem_cons small',here,List.reverse_cons,List.append_assoc]
    rfl
  | case2 i r large =>
    rw [List.drop_eq_nil_of_le (Nat.le_of_not_lt large),List.append_nil]

theorem toList_eq (bytes : ByteArray) : bytes.toList = bytes.data.toList :=
  toList_loop bytes 0 []

/-- Basic letters are one byte each. -/
theorem nameBytes_of_basic {name : String} (basic : ∀ c ∈ name.toList, c.toNat < 128) :
    nameBytes name = name.toList.map fun c => c.val.toUInt8 := by
  have same : nameBytes name = name.toList.flatMap String.utf8EncodeChar := by
    conv_lhs => rw [← String.ofList_toList (s := name)]
    rw [nameBytes,String.toUTF8_eq_toByteArray,String.toByteArray_ofList,List.utf8Encode,
      List.toList_data_toByteArray]
  rw [same,List.map_eq_flatMap]
  refine List.flatMap_congr fun c member => String.utf8EncodeChar_eq_singleton ?_
  exact Char.utf8Size_eq_one_iff.mpr (UInt32.le_iff_toNat_le.mpr (Nat.le_of_lt_succ (basic c member)))

private theorem mapM_char? {text : List Char} (basic : ∀ c ∈ text, c.toNat < 128) :
    (text.map fun c => c.val.toUInt8).mapM Text.CodePage.old.char? = some text := by
  induction text with
  | nil => rfl
  | cons c text ih =>
    have small : c.toNat < Text.CodePage.old.start := basic c List.mem_cons_self
    have same : c.val.toUInt8.toNat = c.toNat :=
      (UInt32.toNat_toUInt8 c.val).trans (Nat.mod_eq_of_lt (Nat.lt_trans small (by decide)))
    have first : Text.CodePage.old.char? c.val.toUInt8 = some c := by
      rw [Text.CodePage.char?,same,if_pos small,Char.ofNat_toNat]
    rw [List.map_cons,List.mapM_cons,first,ih fun c member => basic c (List.mem_cons_of_mem _ member)]
    rfl

/-- A name is read as it was written, whichever way it was written. -/
theorem name?_nameBytes (name : String) :
    name? ⟨(nameBytes name).toArray⟩ (nameFlags name / 2048 % 2 == 1) = some name := by
  unfold nameFlags
  split
  · next basic =>
    have small (c : Char) (member : c ∈ name.toList) : c.toNat < 128 :=
      of_decide_eq_true (List.all_eq_true.mp basic c member)
    show (Text.CodePage.old.decode? _).map String.ofList = some name
    rw [Text.CodePage.decode?,toList_eq,List.toList_toArray,nameBytes_of_basic small,mapM_char? small,
      Option.map_some,String.ofList_toList]
  · have valid : name.toByteArray.IsValidUTF8 := name.isValidUTF8
    exact dif_pos valid

section
variable {entries : Entries} {name : String} {data : ByteArray} {start fuel : Nat}

theorem toList_bodyBytes_cons : (bodyBytes start ((name,data) :: entries)).1.data.toList =
    (entryBytes name data).data.toList ++
      (bodyBytes (start + (entryBytes name data).size) entries).1.data.toList := by
  simp [bodyBytes]

theorem toList_directory_cons : (bodyBytes start ((name,data) :: entries)).2.data.toList =
    listingRecord name data start ++ (nameBytes name ++
      (bodyBytes (start + (entryBytes name data).size) entries).2.data.toList) := by
  rw [← List.append_assoc,← toList_listingBytes]
  simp [bodyBytes]

theorem size_bodyBytes_cons : (bodyBytes start ((name,data) :: entries)).1.size =
    (entryBytes name data).size + (bodyBytes (start + (entryBytes name data).size) entries).1.size :=
  (congrArg List.length toList_bodyBytes_cons).trans List.length_append

theorem size_directory_cons : (bodyBytes start ((name,data) :: entries)).2.size =
    46 + (name.utf8ByteSize + (bodyBytes (start + (entryBytes name data).size) entries).2.size) := by
  refine (congrArg List.length toList_directory_cons).trans ?_
  rw [List.length_append,List.length_append]
  rfl

/-- Where the fields of a listing are. -/
private theorem listingRecord_fields (name : String) (data : ByteArray) (start : Nat) :
    Field (listingRecord name data start) 8 2 (nameFlags name) ∧
    Field (listingRecord name data start) 10 2 0 ∧
    Field (listingRecord name data start) 16 4 (checksum data).toNat ∧
    Field (listingRecord name data start) 20 4 data.size ∧
    Field (listingRecord name data start) 24 4 data.size ∧
    Field (listingRecord name data start) 28 2 name.utf8ByteSize ∧
    Field (listingRecord name data start) 30 2 0 ∧ Field (listingRecord name data start) 32 2 0 ∧
    Field (listingRecord name data start) 42 4 start := by
  simp [Field,listingRecord,sharedFields,number]

private theorem nameFlags_lt (name : String) : nameFlags name < 65536 := by
  unfold nameFlags
  split <;> decide

/-- The directory is read as it was written. -/
theorem listings_eq {stop : Nat} (stands : StandsAt bytes i (bodyBytes start entries).2.data.toList)
    (ends : stop = i + (bodyBytes start entries).2.size) (writable : ∀ e ∈ entries, IsWritable e.1)
    (small : start + (bodyBytes start entries).1.size < 4294967296) (enough : entries.length < fuel) :
    listings fuel bytes i stop 0 = .ok (listed start entries) := by
  induction entries generalizing start i fuel with
  | nil =>
    obtain ⟨fuel,rfl⟩ := Nat.exists_eq_succ_of_ne_zero (Nat.ne_of_gt enough)
    exact if_pos (Nat.le_of_eq ends)
  | cons e entries ih =>
    obtain ⟨name,data⟩ := e
    obtain ⟨fuel,rfl⟩ := Nat.exists_eq_succ_of_ne_zero (Nat.ne_of_gt (Nat.zero_lt_of_lt enough))
    have named := writable _ List.mem_cons_self
    rw [size_bodyBytes_cons] at small
    rw [size_directory_cons] at ends
    rw [toList_directory_cons] at stands
    have record := stands.left
    have written := stands.right.left
    have rest := stands.right.right
    have length_record : (listingRecord name data start).length = 46 := rfl
    rw [length_record] at written rest
    rw [length_nameBytes] at rest
    have inside : stop ≤ bytes.size := by
      have bound := rest.le_size
      have size_rest : (bodyBytes (start + (entryBytes name data).size) entries).2.data.toList.length =
        (bodyBytes (start + (entryBytes name data).size) entries).2.size := rfl
      omega
    have more := ih rest (by omega) (fun e member => writable e (List.mem_cons_of_mem _ member))
      (by omega) (Nat.lt_of_succ_lt_succ enough)
    have size_small : data.size < 4294967296 := by
      rw [size_entryBytes] at small
      omega
    obtain ⟨flagsField,methodField,checkField,packedField,sizeField,lengthField,extraField,noteField,
      startField⟩ := listingRecord_fields name data start
    have mark : hasMark bytes i 1 2 = true := record.hasMark_eq rfl
    have version : byteAt bytes (i + 6) = 20 := record.byteAt_eq (k := 6) rfl
    have flags := record.short_eq flagsField (nameFlags_lt name)
    have method := record.short_eq methodField (by decide)
    have check := record.long_eq checkField (UInt32.toNat_lt _)
    have packed := record.long_eq packedField size_small
    have size := record.long_eq sizeField size_small
    have nameLength := record.short_eq lengthField named.short
    have extra := record.short_eq extraField (by decide)
    have note := record.short_eq noteField (by decide)
    have first := record.long_eq startField (by omega)
    have name_read := written.extract_eq
    rw [length_nameBytes] at name_read
    rw [listings,if_neg (by omega),Nat.min_eq_left inside]
    simp only [mark,version,flags,method,check,packed,size,nameLength,extra,note,first,
      Nat.min_eq_left (show i + 46 + name.utf8ByteSize ≤ stop by omega),name_read,name?_nameBytes,
      Nat.add_zero,more]
    have early : ¬ stop < i + 46 := by omega
    have check_eq : (checksum data).toNat.toUInt32 = checksum data := UInt32.ofNat_toNat
    simp [early,isWholeExtra,check_eq,listed,listing,bind,Except.bind,pure,Except.pure]

/-- What is listed stands where it is listed. -/
theorem exists_of_mem_listed (stands : StandsAt bytes start (bodyBytes start entries).1.data.toList)
    {l : Listing} (member : l ∈ listed start entries) : ∃ name data, ∃ first : Nat,
      (name,data) ∈ entries ∧ l = listing name data first ∧ start ≤ first ∧
        StandsAt bytes first (entryBytes name data).data.toList ∧
          first + (entryBytes name data).size ≤ start + (bodyBytes start entries).1.size := by
  induction entries generalizing start with
  | nil => exact absurd member List.not_mem_nil
  | cons e entries ih =>
    obtain ⟨name,data⟩ := e
    rw [size_bodyBytes_cons]
    rw [toList_bodyBytes_cons] at stands
    rcases List.mem_cons.mp member with rfl | member
    · exact ⟨name,data,start,List.mem_cons_self,rfl,Nat.le_refl start,stands.left,by omega⟩
    · have rest : StandsAt bytes (start + (entryBytes name data).size) _ := stands.right
      obtain ⟨name',data',first,inside,same,later,stands',bound⟩ := ih rest member
      exact ⟨name',data',first,List.mem_cons_of_mem _ inside,same,by omega,stands',by omega⟩

theorem map_name_listed (writable : ∀ e ∈ entries, IsWritable e.1) :
    (listed start entries).map (·.name) = entries.map (·.1) := by
  induction entries generalizing start with
  | nil => rfl
  | cons e entries ih =>
    rw [listed,List.map_cons,List.map_cons,ih fun e member => writable e (List.mem_cons_of_mem _ member)]
    exact congrArg (· :: _) (writable e List.mem_cons_self).whole

end

/-- Where a listed entry ends. -/
def Listing.stop (l : Listing) : Int :=
  l.start + (30 + l.written.utf8ByteSize + l.packed : Nat)

theorem stop_listing (name : String) (data : ByteArray) (start : Nat) :
    (listing name data start).stop = (start + (entryBytes name data).size : Nat) := by
  rw [size_entryBytes]
  rfl

/-- Entries are listed one after the other. -/
theorem pairwise_listed (start : Nat) (entries : Entries) :
    (listed start entries).Pairwise fun a b => a.stop ≤ b.start := by
  have later (start : Nat) (entries : Entries) :
      ∀ l ∈ listed start entries, (start : Int) ≤ l.start := by
    induction entries generalizing start with
    | nil => exact fun l member => absurd member List.not_mem_nil
    | cons e entries ih =>
      intro l member
      rcases List.mem_cons.mp member with rfl | member
      · exact Int.le_refl _
      · exact Int.le_trans (Int.ofNat_le.mpr (Nat.le_add_right _ _)) (ih _ l member)
  induction entries generalizing start with
  | nil => exact List.Pairwise.nil
  | cons e entries ih =>
    refine List.Pairwise.cons (fun l member => ?_) (ih _)
    rw [stop_listing]
    exact later _ entries l member

private theorem nextStart_eq (all : List Listing) (directory : Int) (k : Nat) :
    nextStart all directory k = (((all.zipIdx.mergeSort fun a b => b.1.start ≤ a.1.start).takeWhile
      (·.2 != k)).getLast?.map (·.1.start)).getD directory := by
  unfold nextStart
  dsimp only
  split
  · next found => rw [found]; rfl
  · next found => rw [found]; rfl

/-- The entry after a listed one, or the directory, starts where the listed one ends or later. -/
theorem stop_le_nextStart {all : List Listing} (spaced : all.Pairwise fun a b => a.stop ≤ b.start)
    {directory : Int} (last : ∀ l ∈ all, l.stop ≤ directory) {l : Listing} {k : Nat}
    (member : (l,k) ∈ all.zipIdx) : l.stop ≤ nextStart all directory k := by
  let le (a b : Listing × Nat) : Bool := b.1.start ≤ a.1.start
  let other (entry : Listing × Nat) : Bool := entry.2 != k
  have sorted : (all.zipIdx.mergeSort le).Pairwise (le · ·) := by
    refine List.pairwise_mergeSort (fun a b c => ?_) (fun a b => ?_) all.zipIdx
    · simp only [le,decide_eq_true_eq]
      omega
    · simp only [le,Bool.or_eq_true,decide_eq_true_eq]
      omega
  have place {l : Listing} {k : Nat} (member : (l,k) ∈ all.zipIdx) : all[k]? = some l :=
    List.mk_mem_zipIdx_iff_getElem?.mp member
  have listed : (l,k) ∈ all.zipIdx.mergeSort le := List.mem_mergeSort.mpr member
  have split := (List.takeWhile_append_dropWhile (p := other) (l := all.zipIdx.mergeSort le)).symm
  rw [nextStart_eq]
  change l.stop ≤ (((all.zipIdx.mergeSort le).takeWhile other).getLast?.map (·.1.start)).getD directory
  cases found : ((all.zipIdx.mergeSort le).takeWhile other).getLast? with
  | none => exact last l (List.mem_of_getElem? (place member))
  | some entry =>
    obtain ⟨l',j⟩ := entry
    rw [Option.map_some,Option.getD_some]
    have before := List.mem_of_getLast? found
    have different : j ≠ k := bne_iff_ne.mp (List.mem_takeWhile_imp before : other (l',j) = true)
    have member' : (l',j) ∈ all.zipIdx :=
      List.mem_mergeSort.mp ((List.takeWhile_sublist _).subset before)
    rw [split] at listed sorted
    -- the entry itself comes later in the order, for those before it are others
    have after := (List.mem_append.mp listed).resolve_left fun early =>
      absurd (List.mem_takeWhile_imp early : other (l,k) = true) (by simp [other])
    have higher : l.start ≤ l'.start :=
      of_decide_eq_true ((List.pairwise_append.mp sorted).2.2 _ before _ after)
    have apart := List.pairwise_iff_getElem.mp spaced
    obtain ⟨inside,here⟩ := List.getElem?_eq_some_iff.mp (place member)
    obtain ⟨inside',here'⟩ := List.getElem?_eq_some_iff.mp (place member')
    rcases Nat.lt_or_gt_of_ne different with less | more
    · have far := apart j k inside' inside less
      rw [here,here'] at far
      unfold Listing.stop at far
      omega
    · have far := apart k j inside inside' more
      rwa [here,here'] at far

private theorem entryRecord_fields (name : String) (data : ByteArray) :
    Field (entryRecord name data) 6 2 (nameFlags name) ∧
    Field (entryRecord name data) 26 2 name.utf8ByteSize ∧ Field (entryRecord name data) 28 2 0 := by
  simp [Field,entryRecord,sharedFields,number]

/-- Stored contents are read as they are. -/
theorem contents_eq {name : String} {data : ByteArray} {start first : Nat}
    (stands : StandsAt bytes first data.data.toList) :
    contents bytes (listing name data start) first = .ok data := by
  have packed : bytes.extract first (first + data.size) = data := stands.extract_eq
  have whole : data.extract 0 data.size = data := data.extract_zero_size
  simp [contents,listing,packed,whole]

/-- An entry is read where it stands. -/
theorem entry_eq {name : String} {data : ByteArray} {start : Nat}
    (stands : StandsAt bytes start (entryBytes name data).data.toList) (writable : IsWritable name)
    {next : Int} (room : (listing name data start).stop ≤ next) :
    entry bytes (listing name data start) next = .ok data := by
  rw [toList_entryBytes] at stands
  have record := stands.left
  have written : StandsAt bytes (start + 30) (nameBytes name) := stands.right.left
  have stored : StandsAt bytes (start + 30 + name.utf8ByteSize) data.data.toList := stands.right.right
  obtain ⟨flagsField,lengthField,extraField⟩ := entryRecord_fields name data
  have mark : hasMark bytes start 3 4 = true := record.hasMark_eq rfl
  have flags := record.short_eq flagsField (nameFlags_lt name)
  have nameLength := record.short_eq lengthField writable.short
  have extra := record.short_eq extraField (by decide)
  have name_read := written.extract_eq
  rw [length_nameBytes] at name_read
  have early : ¬ bytes.size < start + 30 := Nat.not_lt.mpr record.le_size
  have plain : nameFlags name / 32 % 2 = 0 ∧ nameFlags name / 64 % 2 = 0 ∧ nameFlags name % 2 = 0 := by
    unfold nameFlags
    split <;> decide
  rw [stop_listing,size_entryBytes] at room
  have start_eq : (listing name data start).start.toNat = start := Int.toNat_natCast start
  have positive : ¬ (listing name data start).start < 0 := Int.not_lt.mpr (Int.natCast_nonneg start)
  have fits : ¬ next < (start : Int) + 30 + name.utf8ByteSize + data.size := by omega
  have read : contents bytes (listing name data start) (start + 30 + name.utf8ByteSize) = .ok data :=
    contents_eq stored
  rw [entry,if_neg positive]
  simp only [start_eq,early,mark,flags,nameLength,extra,name_read,name?_nameBytes,Nat.add_zero]
  simpa [listing,plain,fits] using read

/-- Entries can be written: their names can be, none comes twice, and the archive is not too large. -/
structure Writable (entries : Entries) : Prop where
  names : ∀ e ∈ entries, IsWritable e.1
  nodup : (entries.map (·.1)).Nodup
  small : (write entries).size < 4294967296

private theorem eraseDups_of_nodup {names : List String} (nodup : names.Nodup) :
    names.eraseDups = names := by
  induction names with
  | nil => rfl
  | cons name names ih =>
    obtain ⟨fresh,nodup⟩ := List.nodup_cons.mp nodup
    have kept : names.filter (fun other => !other == name) = names := by
      refine List.filter_eq_self.mpr fun other member => ?_
      simpa using fun same : other = name => fresh (same ▸ member)
    rw [List.eraseDups_cons,kept,ih nodup]

private theorem length_le_directory (start : Nat) (entries : Entries) :
    entries.length ≤ (bodyBytes start entries).2.size := by
  induction entries generalizing start with
  | nil => exact Nat.zero_le _
  | cons e entries ih =>
    have rest := ih (start + (entryBytes e.1 e.2).size)
    rw [List.length_cons,size_directory_cons]
    omega

private theorem size_eq (entries : Entries) : (write entries).size =
    (bodyBytes 0 entries).1.size + (bodyBytes 0 entries).2.size + 22 := by
  refine (congrArg List.length (toList_write entries)).trans ?_
  rw [List.length_append,List.length_append,← Nat.add_assoc]
  rfl

/-- How many bytes an archive with these entries has. -/
theorem size_write (entries : Entries) : (write entries).size =
    (entries.map fun e => 76 + 2 * e.1.utf8ByteSize + e.2.size).sum + 22 := by
  have both (start : Nat) (entries : Entries) :
      (bodyBytes start entries).1.size + (bodyBytes start entries).2.size =
        (entries.map fun e => 76 + 2 * e.1.utf8ByteSize + e.2.size).sum := by
    induction entries generalizing start with
    | nil => rfl
    | cons e entries ih =>
      have rest := ih (start + (entryBytes e.1 e.2).size)
      rw [size_bodyBytes_cons,size_directory_cons,List.map_cons,List.sum_cons,← rest,
        size_entryBytes]
      omega
  rw [size_eq,both]

namespace Writable

variable {entries : Entries} (writable : Writable entries)
include writable

/-- No entry is a folder. -/
private theorem filter_eq_self : ((listed 0 entries).zipIdx.filter fun l => !l.1.isFolder) =
    (listed 0 entries).zipIdx := by
  refine List.filter_eq_self.mpr fun l member => ?_
  have inside : l.1 ∈ listed 0 entries := List.mem_of_getElem? (List.mem_zipIdx_iff_getElem?.mp member)
  have named : l.1.name ∈ entries.map (·.1) :=
    map_name_listed writable.names ▸ List.mem_map_of_mem inside
  obtain ⟨e,member,same⟩ := List.mem_map.mp named
  simpa [Listing.isFolder,← same] using (writable.names e member).folder

/-- Each entry is found under its name. -/
private theorem entry_of_name (stands : StandsAt bytes 0 (bodyBytes 0 entries).1.data.toList)
    {e : String × ByteArray} (member : e ∈ entries) : ∃ l k,
      ((listed 0 entries).zipIdx.filter (·.1.name == e.1)).getLast? = some (l,k) ∧
        entry bytes l (nextStart (listed 0 entries) (bodyBytes 0 entries).1.size k) = .ok e.2 := by
  have named : e.1 ∈ (listed 0 entries).map (·.name) :=
    (map_name_listed writable.names).symm ▸ List.mem_map_of_mem member
  obtain ⟨l,inside,same⟩ := List.mem_map.mp named
  obtain ⟨k,here⟩ := List.getElem?_of_mem inside
  cases last : ((listed 0 entries).zipIdx.filter (·.1.name == e.1)).getLast? with
  | none =>
    have found : (l,k) ∈ (listed 0 entries).zipIdx.filter (·.1.name == e.1) :=
      List.mem_filter.mpr ⟨List.mk_mem_zipIdx_iff_getElem?.mpr here,beq_iff_eq.mpr same⟩
    rw [List.getLast?_eq_none_iff.mp last] at found
    exact absurd found List.not_mem_nil
  | some found =>
    obtain ⟨l',k'⟩ := found
    obtain ⟨member',same'⟩ := List.mem_filter.mp (List.mem_of_getLast? last)
    have inside' : l' ∈ listed 0 entries :=
      List.mem_of_getElem? (List.mk_mem_zipIdx_iff_getElem?.mp member')
    obtain ⟨name',data',_,listed',rfl,-,stands',-⟩ := exists_of_mem_listed stands inside'
    have named' : name' = e.1 := (writable.names _ listed').whole.symm.trans (eq_of_beq same')
    obtain rfl := List.inj_on_of_nodup_map writable.nodup listed' member named'
    have ends : ∀ l ∈ listed 0 entries, l.stop ≤ (bodyBytes 0 entries).1.size := by
      intro l inside
      obtain ⟨name,data,first,-,rfl,-,-,bound⟩ := exists_of_mem_listed stands inside
      rw [stop_listing]
      exact Int.ofNat_le.mpr (by omega)
    exact ⟨_,k',rfl,entry_eq stands' (writable.names _ member)
      (stop_le_nextStart (pairwise_listed 0 entries) ends member')⟩

end Writable

/-- The record at the end is found where it was written. -/
private theorem closing?_eq {count directory body : Nat}
    (stands : StandsAt bytes i (closingRecord count directory body)) (size : bytes.size = i + 22) :
    closing? bytes = some i := by
  have mark : hasMark bytes i 5 6 = true := stands.hasMark_eq rfl
  have comment : short bytes (i + 20) = 0 :=
    stands.short_eq (by simp [Field,closingRecord,number]) (by decide)
  rw [closing?,size,if_neg (Nat.not_lt.mpr (Nat.le_add_left 22 i)),Nat.add_sub_cancel]
  simp [mark,comment]

/-- What was written is read back. -/
theorem read_write {entries : Entries} (writable : Writable entries) :
    read (write entries) = .ok entries := by
  have whole : StandsAt (write entries) 0 (write entries).data.toList := ⟨[],[],by simp,rfl⟩
  have size : (write entries).size =
      (bodyBytes 0 entries).1.size + (bodyBytes 0 entries).2.size + 22 :=
    size_eq entries
  rw [toList_write] at whole
  have stands := whole.left
  have listings_stand : StandsAt _ (bodyBytes 0 entries).1.size _ := Nat.zero_add _ ▸ whole.right.left
  have closing : StandsAt _ ((bodyBytes 0 entries).1.size + (bodyBytes 0 entries).2.size) _ :=
    Nat.zero_add _ ▸ whole.right.right
  have small := writable.small
  have few := length_le_directory 0 entries
  have all : listings ((write entries).size + 1) (write entries) (bodyBytes 0 entries).1.size
      ((bodyBytes 0 entries).1.size + (bodyBytes 0 entries).2.size) 0 = .ok (listed 0 entries) :=
    listings_eq listings_stand rfl writable.names (by omega) (by omega)
  have each (e : String × ByteArray) (member : e ∈ entries) := writable.entry_of_name stands member
  have found := closing?_eq closing size
  have directorySize := closing.long_eq (k := 12) (n := (bodyBytes 0 entries).2.size)
    (by simp [Field,closingRecord,number]) (by omega)
  have bodySize := closing.long_eq (k := 16) (n := (bodyBytes 0 entries).1.size)
    (by simp [Field,closingRecord,number]) (by omega)
  generalize (bodyBytes 0 entries).1.size = body at *
  generalize (bodyBytes 0 entries).2.size = directory at *
  have shift : ((body + directory : Nat) : Int) - directory - body = 0 := by omega
  unfold read
  simp only [found,directorySize,bodySize,shift,if_neg (Nat.not_lt.mpr (Nat.le_add_left directory body)),
    Nat.add_sub_cancel,all]
  change (List.mapM _ _ : Except Fault Entries) = _
  rw [writable.filter_eq_self]
  have names : (((listed 0 entries).zipIdx.map (·.1.name)).eraseDups) = entries.map (·.1) := by
    have zipped := congrArg (List.map Listing.name) (List.zipIdx_map_fst 0 (listed 0 entries))
    rw [List.map_map,map_name_listed writable.names] at zipped
    exact (congrArg List.eraseDups zipped).trans (eraseDups_of_nodup writable.nodup)
  rw [names]
  refine mapM_map_eq_ok fun e member => ?_
  obtain ⟨l,k,last,read⟩ := each e member
  simp only [last,read]
  rfl

end MailMerge.Archive
