import NCollectd.LabelSet.Slots
import NCollectd.Metric.Identity
import NCollectd.Notification.Model

namespace NCollectd.Notifications

open LabelSet Option

def notificationText (fixed3 : Double → CString) (n : Notification) (labels annotations : List LabelPair) : CString :=
  n.name ++ (labelText labels ++ (labelText annotations ++
    (severityText n.severity ++ (fixed3 (cdtimeToDouble n.time) ++ ['\n']))))

theorem orMarshal_appends (page : PageSize) (read : readPairs array = some pairs) (growing : buf.fixed = false) :
    ∃ next, orMarshal page array (0, buf) = some (0, next) ∧ next.fixed = false ∧
      next.text = buf.text ++ labelText pairs := by
  obtain ⟨next, written, flag, text⟩ := labelSetMarshal_appends page read growing
  exact ⟨next, by simp [orMarshal, written], flag, text⟩

theorem orPrint_appends (page : PageSize) (text : CString) (growing : buf.fixed = false) :
    ∃ next, orWrite (strbufPrint page) (some text) (0, buf) = some (0, next) ∧ next.fixed = false ∧
      next.text = buf.text ++ text := by
  obtain ⟨next, written, flag, content⟩ := strbufPrint_appends page text buf growing
  exact ⟨next, by simp [orWrite, written], flag, content⟩

/-- The text is written if the labels and annotations can be read. -/
theorem notificationMarshal_text (page : PageSize) (fixed3 : Double → CString)
    (label : readPairs n.label = some labels) (noted : readPairs n.annotations = some annotations) :
    ∃ buf, notificationMarshal page fixed3 .create n = some (0, buf) ∧
      buf.text = notificationText fixed3 n labels annotations := by
  obtain ⟨buf₁, named, growing₁, text₁⟩ := strbufPrint_appends page n.name .create rfl
  obtain ⟨buf₂, labelled, growing₂, text₂⟩ := orMarshal_appends page label growing₁
  obtain ⟨buf₃, annotated, growing₃, text₃⟩ := orMarshal_appends page noted growing₂
  obtain ⟨buf₄, classified, growing₄, text₄⟩ := orPrint_appends page (severityText n.severity) growing₃
  obtain ⟨buf₅, timed, -, text₅⟩ := orPrint_appends page (fixed3 (cdtimeToDouble n.time) ++ ['\n']) growing₄
  refine ⟨buf₅, ?_, ?_⟩
  · simp [notificationMarshal, named, labelled, annotated, classified, timed]
  · rw [text₅, text₄, text₃, text₂, text₁, notificationText]
    simp only [List.append_assoc]
    rfl

theorem severityText_head (severity : Int) (rest : CString) :
    endsIdentity (severityText severity ++ rest) = false := by
  unfold severityText
  split
  · rfl
  · split <;> rfl

theorem strspn_notificationText (fixed3 : Double → CString) (valid : ValidName n.name) :
    strspn (notificationText fixed3 n labels annotations) validNameChars = n.name.length := by
  apply strspn_append _ _ _ valid.2
  intro c first
  obtain rfl : '{' = c := some.inj first
  decide

/-- Every text of a notification is refused. -/
theorem notiticationUnmarshal_text (page : PageSize) (fixed3 : Double → CString) (valid : ValidName n.name)
    (labelsValid : ∀ pair ∈ labels, pair.value ≠ [] ∧ validLabelName pair.name = true)
    (annotationsValid : ∀ pair ∈ annotations, pair.value ≠ [] ∧ validLabelName pair.name = true) :
    ∃ parsed, notiticationUnmarshal page .zero (notificationText fixed3 n labels annotations) =
      some (EINVAL, parsed) := by
  have filled : n.name.length ≠ 0 := mt List.length_eq_zero_iff.mp valid.1
  have wrong : EINVAL ≠ 0 := by decide
  unfold notiticationUnmarshal
  simp only [strspn_notificationText fixed3 valid, if_neg filled, Notification.zero]
  simp only [notificationText, List.drop_left]
  by_cases unlabelled : labels = []
  · rw [unlabelled, labelSetUnmarshal_nil, bind_some, if_pos wrong]
    exact ⟨_, rfl⟩
  · obtain ⟨array, -, read, -⟩ := labelSetUnmarshal_valid page labelsValid unlabelled
      (labelText annotations ++ (severityText n.severity ++ (fixed3 (cdtimeToDouble n.time) ++ ['\n'])))
    simp only [read, bind_some, ne_eq, not_true_eq_false, if_false]
    by_cases bare : annotations = []
    · rw [bare, labelSetUnmarshal_nil, map_some, if_pos wrong]
      exact ⟨_, rfl⟩
    · obtain ⟨array', -, read', -⟩ := labelSetUnmarshal_valid page annotationsValid bare
        (severityText n.severity ++ (fixed3 (cdtimeToDouble n.time) ++ ['\n']))
      simp only [read', map_some, not_true_eq_false, if_false, severityText_head, Bool.false_eq_true]
      exact ⟨_, rfl⟩

/-- A notification with a valid name and sets made by `notification_label_set` and `notification_annotation_set`. -/
structure NotificationInput where
  notification : Notification
  name : ValidName notification.name
  labelCalls : List LabelCall
  labels : runCalls .empty labelCalls = some notification.label
  annotationCalls : List LabelCall
  annotations : runCalls .empty annotationCalls = some notification.annotations

/-- The text of the notification is read back with the same name, labels and annotations. -/
def NotificationRoundTrips (page : PageSize) (fixed3 : Double → CString) (n : Notification) : Prop :=
  ∃ labels annotations buf parsed, readPairs n.label = some labels ∧ readPairs n.annotations = some annotations ∧
    notificationMarshal page fixed3 .create n = some (0, buf) ∧
    notiticationUnmarshal page .zero buf.text = some (0, parsed) ∧ parsed.name = n.name ∧
    readPairs parsed.label = some labels ∧ readPairs parsed.annotations = some annotations

/-- No text of a notification is accepted, whatever its labels and annotations are. -/
theorem notification_round_trip_never (page : PageSize) (fixed3 : Double → CString) (input : NotificationInput) :
    (∀ labels annotations, readPairs input.notification.label = some labels →
        readPairs input.notification.annotations = some annotations →
        ∃ buf parsed, notificationMarshal page fixed3 .create input.notification = some (0, buf) ∧
          notiticationUnmarshal page .zero buf.text = some (EINVAL, parsed)) ∧
      (NotificationRoundTrips page fixed3 input.notification ↔ False) := by
  have refused : ∀ labels annotations, readPairs input.notification.label = some labels →
      readPairs input.notification.annotations = some annotations →
      ∃ buf parsed, notificationMarshal page fixed3 .create input.notification = some (0, buf) ∧
        notiticationUnmarshal page .zero buf.text = some (EINVAL, parsed) := by
    intro labels annotations label noted
    obtain ⟨buf, written, text⟩ := notificationMarshal_text page fixed3 label noted
    obtain ⟨parsed, failed⟩ := notiticationUnmarshal_text page fixed3 input.name
      (runCalls_valid input.labels label) (runCalls_valid input.annotations noted)
    exact ⟨buf, parsed, written, text ▸ failed⟩
  refine ⟨refused, iff_of_false ?_ not_false⟩
  rintro ⟨labels, annotations, buf, parsed, label, noted, written, accepted, -⟩
  obtain ⟨buf', parsed', written', failed⟩ := refused labels annotations label noted
  obtain rfl : buf = buf' := congrArg Prod.snd (some.inj (written.symm.trans written'))
  rw [accepted] at failed
  cases failed

def smallNotification : Notification :=
  ⟨NOTIF_OKAY, 0, "up", ((labelSetAdd .empty "a" (some "1")).map Prod.snd).getD .empty,
    ((labelSetAdd .empty "b" (some "2")).map Prod.snd).getD .empty, none⟩

/-- The notification is made by one call for each of the two sets. -/
theorem smallNotification_set :
    (notificationLabelSet ⟨NOTIF_OKAY, 0, "up", .empty, .empty, none⟩ "a" (some "1")).bind
      (fun set => notificationAnnotationSet set.2 "b" (some "2")) = some (0, smallNotification) := by
  decide +kernel

def smallInput : NotificationInput where
  notification := smallNotification
  name := ⟨by decide, (strspn_eq_length_iff _ _).mp (by decide)⟩
  labelCalls := [⟨"a", some "1"⟩]
  labels := by decide +kernel
  annotationCalls := [⟨"b", some "2"⟩]
  annotations := by decide +kernel

theorem notification_round_trip_never_small :
    NotificationRoundTrips (strbufPagesize 4096) (fun _ => "0.000") smallInput.notification ↔ False :=
  (notification_round_trip_never (strbufPagesize 4096) (fun _ => "0.000") smallInput).2

theorem notification_round_trip_small_fails :
    (notificationMarshal (strbufPagesize 4096) (fun _ => "0.000") .create smallNotification).map
        (fun result => (result.1, result.2.text)) = some (0, "up\x7ba=\"1\"\x7d\x7bb=\"2\"\x7d OKAY 0.000\n".toList) ∧
      (notiticationUnmarshal (strbufPagesize 4096) .zero "up\x7ba=\"1\"\x7d\x7bb=\"2\"\x7d OKAY 0.000\n").map
        Prod.fst = some EINVAL ∧
      ¬ NotificationRoundTrips (strbufPagesize 4096) (fun _ => "0.000") smallNotification := by
  have line : (notificationMarshal (strbufPagesize 4096) (fun _ => "0.000") .create smallNotification).map
      (fun result => (result.1, result.2.text)) =
        some (0, "up\x7ba=\"1\"\x7d\x7bb=\"2\"\x7d OKAY 0.000\n".toList) := by
    decide +kernel
  have refused : (notiticationUnmarshal (strbufPagesize 4096) .zero
      "up\x7ba=\"1\"\x7d\x7bb=\"2\"\x7d OKAY 0.000\n").map Prod.fst = some EINVAL := by decide +kernel
  refine ⟨line, refused, ?_⟩
  rintro ⟨labels, annotations, buf, parsed, -, -, written, accepted, -⟩
  rw [written] at line
  have text : buf.text = _ := congrArg Prod.snd (some.inj line)
  rw [text] at accepted
  rw [accepted] at refused
  cases refused

end NCollectd.Notifications
