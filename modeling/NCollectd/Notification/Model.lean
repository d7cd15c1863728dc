import NCollectd.Cache.Model
import NCollectd.LabelSet.Clone
import NCollectd.Utils.MetaData

/-! `notification.c`: a notification as text and back, and its copy. -/

namespace NCollectd.Notifications

open LabelSet

def NOTIF_WARNING : Int := 2
def NOTIF_OKAY : Int := 4

/-- `notification_t`. -/
structure Notification where
  severity : Int
  time : CdTime
  name : CString
  label : LabelArray
  annotations : LabelArray
  metaData : Option (List MetaEntry)
deriving DecidableEq

def Notification.zero : Notification := ⟨0, 0, [], .empty, .empty, none⟩

def notificationLabelSet (n : Notification) (name : CString) (value : Option CString) :
    Option (Status × Notification) :=
  (labelSetAdd n.label name value).map fun (status, label) => (status, { n with label })

def notificationAnnotationSet (n : Notification) (name : CString) (value : Option CString) :
    Option (Status × Notification) :=
  (labelSetAdd n.annotations name value).map fun (status, annotations) => (status, { n with annotations })

def orMarshal (page : PageSize) (labels : LabelArray) (state : Status × Strbuf) : Option (Status × Strbuf) :=
  if state.1 ≠ 0 then some (1, state.2)
  else (labelSetMarshal page state.2 labels).map fun (status, buf) => (if status ≠ 0 then 1 else 0, buf)

def severityText (severity : Int) : CString :=
  if severity = NOTIF_WARNING then " WARNING "
  else if severity = NOTIF_OKAY then " OKAY "
  else " FAILURE "

def notificationMarshal (page : PageSize) (fixed3 : Double → CString) (buf : Strbuf) (n : Notification) :
    Option (Status × Strbuf) := do
  let state ← orMarshal page n.label (strbufPrint page buf n.name)
  let state ← orMarshal page n.annotations state
  let state ← orWrite (strbufPrint page) (some (severityText n.severity)) state
  orWrite (strbufPrint page) (some (fixed3 (cdtimeToDouble n.time) ++ ['\n'])) state

def endsIdentity (ptr : CString) : Bool := ptr.head? = some '}' && ptr.tail.head?.all (· = ' ')

def notiticationUnmarshal (page : PageSize) (n : Notification) (buf : CString) : Option (Status × Notification) :=
  let nameLen := strspn buf validNameChars
  if nameLen = 0 then some (EINVAL, n)
  else
    let n := { n with name := buf.take nameLen }
    (labelSetUnmarshal page n.label (buf.drop nameLen)).bind fun (ret, label, ptr) =>
      let n := { n with label }
      if ret ≠ 0 then some (ret, n)
      else
        (labelSetUnmarshal page n.annotations ptr).map fun (ret, annotations, ptr) =>
          let n := { n with annotations }
          if ret ≠ 0 then (ret, n) else if endsIdentity ptr then (0, n) else (EINVAL, n)

/-- `none` inside stands for NULL. The test of the copied meta data is the wrong way round. -/
def notificationClone (src : Notification) : Option (Option Notification) :=
  (labelSetClone .empty src.label).bind fun (status, label) =>
    if status ≠ 0 then some none
    else
      (labelSetClone .empty src.annotations).map fun (status, annotations) =>
        if status ≠ 0 then none
        else
          let metaData := metaDataClone src.metaData
          if src.metaData.isSome && metaData.isSome then none
          else some ⟨src.severity, src.time, src.name, label, annotations, metaData⟩

structure SameNotification (n copy : Notification) : Prop where
  name : copy.name = n.name
  severity : copy.severity = n.severity
  time : copy.time = n.time
  label : ∃ pairs, readPairs n.label = some pairs ∧ readPairs copy.label = some pairs
  annotations : ∃ pairs, readPairs n.annotations = some pairs ∧ readPairs copy.annotations = some pairs
  metaData : metaEntries copy.metaData = metaEntries n.metaData

/-- What the copy of a notification is. -/
theorem notificationClone_eq (n : Notification) :
    match readPairs n.label, readPairs n.annotations with
    | some labels, some annotations => n.metaData.isSome ∧ notificationClone n = some none ∨
        n.metaData = none ∧ ∃ copy, notificationClone n = some (some copy) ∧ copy.name = n.name ∧
          copy.severity = n.severity ∧ copy.time = n.time ∧ copy.metaData = none ∧
          readPairs copy.label = some labels ∧ readPairs copy.annotations = some annotations
    | _, _ => notificationClone n = none := by
  have label := labelSetClone_eq n.label
  have noted := labelSetClone_eq n.annotations
  unfold notificationClone
  cases labels : readPairs n.label with
  | none =>
    simp only [labels] at label
    simp [label]
  | some pairs =>
    simp only [labels] at label
    obtain ⟨copy, cloned, same⟩ := label
    simp only [cloned, Option.bind_some, ne_eq, not_true_eq_false, if_false]
    cases annotations : readPairs n.annotations with
    | none =>
      simp only [annotations] at noted
      simp [noted]
    | some others =>
      simp only [annotations] at noted
      obtain ⟨second, cloned', same'⟩ := noted
      simp only [cloned', Option.map_some, not_true_eq_false, if_false, metaDataClone_eq, Bool.and_self]
      cases n.metaData with
      | some entries => exact .inl ⟨rfl, rfl⟩
      | none => exact .inr ⟨rfl, _, rfl, rfl, rfl, rfl, rfl, same, same'⟩

/-- Exactly the notifications without meta data are copied, if their labels and annotations can be read. -/
theorem notification_clone_faithful_iff (n : Notification) :
    (∃ copy, notificationClone n = some (some copy) ∧ SameNotification n copy) ↔
      n.metaData = none ∧ (readPairs n.label).isSome ∧ (readPairs n.annotations).isSome := by
  have clone := notificationClone_eq n
  cases labels : readPairs n.label with
  | none =>
    simp only [labels] at clone
    simp [clone]
  | some pairs =>
    cases annotations : readPairs n.annotations with
    | none =>
      simp only [labels, annotations] at clone
      simp [clone]
    | some others =>
      simp only [labels, annotations] at clone
      rcases clone with ⟨present, refused⟩ | ⟨absent, copy, cloned, name, severity, time, entries, same, same'⟩
      · have different : n.metaData ≠ none := Option.isSome_iff_ne_none.mp present
        simp [refused, different]
      · refine ⟨fun _ => ⟨absent, rfl, rfl⟩, fun _ => ⟨copy, cloned, ?_⟩⟩
        exact ⟨name, severity, time, ⟨pairs, labels, same⟩, ⟨others, annotations, same'⟩, by rw [entries, absent]⟩

def flaggedNotification : Notification :=
  ⟨NOTIF_OKAY, 1, "up", .empty, .empty, some [⟨"seen", .boolean true⟩]⟩

theorem notification_clone_refuses_meta :
    notificationClone flaggedNotification = some none ∧
      ¬ ∃ copy, notificationClone flaggedNotification = some (some copy) ∧
        SameNotification flaggedNotification copy := by
  have refused : notificationClone flaggedNotification = some none := by decide +kernel
  refine ⟨refused, ?_⟩
  rintro ⟨copy, cloned, -⟩
  rw [refused] at cloned
  cases cloned

end NCollectd.Notifications
