import NCollectd.Base.Double
import NCollectd.Base.Libc
import NCollectd.Base.Memory

/-! `meta_data.c`: lists of entries with keys that differ without regard to case, and their copies. -/

namespace NCollectd

/-- `meta_value_t`, with the type of its entry. -/
inductive MetaValue where
  | string (value : CString)
  | signedInt (value : Int)
  | unsignedInt (value : UInt64)
  | double (value : Double)
  | boolean (value : Bool)
deriving DecidableEq

structure MetaEntry where
  key : CString
  value : MetaValue
deriving DecidableEq

/-- The entries of a `meta_data_t` in the order of its list. -/
abbrev MetaData := List MetaEntry

def mdEntryInsert (e : MetaEntry) : MetaData → MetaData
  | [] => [e]
  | entry :: rest => if strcasecmp e.key entry.key = 0 then e :: rest else entry :: mdEntryInsert e rest

def metaDataCreate (heap : Heap MetaData) : Heap MetaData × Block := heap.alloc []

def metaDataAddString (heap : Heap MetaData) (md : Block) (key value : CString) : Option (Heap MetaData) :=
  (heap.deref md).bind fun entries => heap.store md (mdEntryInsert ⟨key, .string value⟩ entries)

def metaDataDestroy (heap : Heap MetaData) : Option Block → Option (Heap MetaData)
  | none => some heap
  | some md => heap.free md

def mdEntryCloneContents (orig : MetaEntry) : MetaEntry :=
  match orig.value with
  | .string text => ⟨orig.key, .string text⟩
  | other => ⟨orig.key, other⟩

def mdEntryClone : List MetaEntry → List MetaEntry
  | [] => []
  | orig :: next => mdEntryCloneContents orig :: mdEntryClone next

def metaDataClone (orig : Option (List MetaEntry)) : Option (List MetaEntry) := orig.map mdEntryClone

def metaEntries (md : Option (List MetaEntry)) : List MetaEntry := md.getD []

theorem mdEntryCloneContents_eq (orig : MetaEntry) : mdEntryCloneContents orig = orig := by
  obtain ⟨key, value⟩ := orig
  cases value <;> rfl

@[simp]
theorem mdEntryClone_eq (entries : List MetaEntry) : mdEntryClone entries = entries := by
  induction entries with
  | nil => rfl
  | cons orig next ih => rw [mdEntryClone, mdEntryCloneContents_eq, ih]

@[simp]
theorem metaDataClone_eq (orig : Option (List MetaEntry)) : metaDataClone orig = orig := by
  cases orig with
  | none => rfl
  | some entries => exact congrArg some (mdEntryClone_eq entries)

end NCollectd
