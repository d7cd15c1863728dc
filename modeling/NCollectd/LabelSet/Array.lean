import NCollectd.Base.Libc
import NCollectd.Base.Memory

/-! `label_set.c`: a sorted array of records with pointers to heap strings. -/

namespace NCollectd.LabelSet

def validLabelChars : CString :=
  "abcdefghijklmnopqrstuvwxyzABCDEFGHIJKLMNOPQRSTUVWXYZ0123456789_".toList

/-- `label_pair_t`, read through its two pointers. -/
structure LabelPair where
  name : CString
  value : CString
deriving DecidableEq

def validLabelName (name : CString) : Bool :=
  name.length != 0 && strspn name validLabelChars == name.length && !(name.head?.any isdigit)

def givenValue (value : Option CString) : Option CString := value.filter fun value => value.length != 0

def sizeofPair : Nat := 2 * sizeofPtr

/-- `label_set_t` together with the heap its strings live in. -/
structure LabelArray where
  heap : Heap CString
  ptr : List MemVal
  num : Nat
deriving DecidableEq

def LabelArray.empty : LabelArray := ⟨.empty, [], 0⟩

def nameBlock (labels : LabelArray) (index : Nat) : Option Block :=
  loadPtr labels.ptr (sizeofPair * index)

def valueBlock (labels : LabelArray) (index : Nat) : Option Block :=
  loadPtr labels.ptr (sizeofPair * index + sizeofPtr)

def pairName (labels : LabelArray) (index : Nat) : Option CString :=
  (nameBlock labels index).bind labels.heap.deref

def pairValue (labels : LabelArray) (index : Nat) : Option CString :=
  (valueBlock labels index).bind labels.heap.deref

def readPair (labels : LabelArray) (index : Nat) : Option LabelPair :=
  match pairName labels index, pairValue labels index with
  | some name, some value => some ⟨name, value⟩
  | _, _ => none

def readPairs (labels : LabelArray) : Option (List LabelPair) :=
  readAll (readPair labels) labels.num

def labelSetRead (labels : LabelArray) (name : CString) : Option (Except Status Nat) :=
  match bsearch (fun i => (pairName labels i).map (strcmp name)) labels.num with
  | none => none
  | some none => some (.error ENOENT)
  | some (some index) => some (.ok index)

def pairBytes (name value : Block) : List MemVal := ptrBytes name ++ ptrBytes value

def recordBytes (labels : LabelArray) (index : Nat) : List MemVal :=
  (labels.ptr.drop (sizeofPair * index)).take sizeofPair

def sortPairs (labels : LabelArray) : Option LabelArray :=
  match readAll (fun i => (pairName labels i).map fun name => (name, recordBytes labels i)) labels.num with
  | none => none
  | some records => some { labels with ptr := (qsortByName records).flatMap Prod.snd }

def labelSetCreate (labels : LabelArray) (name value : CString) : Option (Status × LabelArray) :=
  if !validLabelName name then some (EINVAL, labels)
  else
    match labelSetRead labels name with
    | none => none
    | some (.ok _) => some (EEXIST, labels)
    | some (.error _) =>
      if value.length = 0 then some (0, labels)
      else
        let bytes := realloc labels.ptr (sizeofPair * (labels.num + 1))
        let (heap, name) := labels.heap.alloc name
        let (heap, value) := heap.alloc value
        let bytes := bytes.take (sizeofPair * labels.num) ++ pairBytes name value
        (sortPairs ⟨heap, bytes, labels.num + 1⟩).map fun labels => (0, labels)

def labelSetDelete (labels : LabelArray) (index : Nat) : Option (Status × LabelArray) :=
  if labels.num ≤ index then some (ERANGE, labels)
  else
    match nameBlock labels index, valueBlock labels index with
    | some name, some value =>
      match labels.heap.free name with
      | none => none
      | some heap =>
        match heap.free value with
        | none => none
        | some heap =>
          let bytes :=
            if index ≠ labels.num - 1 then
              memmove labels.ptr (sizeofPair * index) (sizeofPair * (index + 1)) (labels.num - (index + 1))
            else labels.ptr
          let num := labels.num - 1
          some (0, ⟨heap, if num = 0 then [] else bytes, num⟩)
    | _, _ => none

def overwriteValue (labels : LabelArray) (index : Nat) (value : CString) : Option (Status × LabelArray) :=
  let (heap, newValue) := labels.heap.alloc value
  match valueBlock labels index with
  | none => none
  | some old =>
    match heap.free old with
    | none => none
    | some heap =>
      let offset := sizeofPair * index + sizeofPtr
      let bytes := labels.ptr.take offset ++ ptrBytes newValue ++ labels.ptr.drop (offset + sizeofPtr)
      some (0, ⟨heap, bytes, labels.num⟩)

def labelSetAdd (labels : LabelArray) (name : CString) (value : Option CString) :
    Option (Status × LabelArray) :=
  match labelSetRead labels name, givenValue value with
  | none, _ => none
  | some (.error _), none => some (0, labels)
  | some (.error _), some value => labelSetCreate labels name value
  | some (.ok index), none => labelSetDelete labels index
  | some (.ok index), some value => overwriteValue labels index value

def labelSetValue (labels : LabelArray) (name : CString) : Option (Option CString) :=
  match labelSetRead labels name with
  | none => none
  | some (.error _) => some none
  | some (.ok index) => (pairValue labels index).map some

end NCollectd.LabelSet
