import NCollectd.LabelSet.Array
import NCollectd.Utils.Strbuf

/-! The text form of a label set. -/

namespace NCollectd.LabelSet

open List

def needEscape : CString := ['\\', '"', '\n', '\r', '\t']

def valueStop : CString := ['\\', '"', '\n']

def orWrite (write : Strbuf → CString → Status × Strbuf) (text : Option CString)
    (state : Status × Strbuf) : Option (Status × Strbuf) :=
  if state.1 ≠ 0 then some (1, state.2)
  else text.map fun text =>
    let (status, buf) := write state.2 text
    (if status ≠ 0 then 1 else 0, buf)

def marshalSeparator (page : PageSize) (i : Nat) (state : Status × Strbuf) : Option (Status × Strbuf) :=
  if i ≠ 0 then orWrite (strbufPrint page) (some [',']) state else some state

def marshalLabel (page : PageSize) (labels : LabelArray) (i : Nat) (state : Status × Strbuf) :
    Option (Status × Strbuf) := do
  let state ← marshalSeparator page i state
  let state ← orWrite (strbufPrint page) (pairName labels i) state
  let state ← orWrite (strbufPrint page) (some ['=', '"']) state
  let state ← orWrite (fun buf value => strbufPrintEscaped page buf value needEscape '\\')
    (pairValue labels i) state
  orWrite (strbufPrint page) (some ['"']) state

def marshalLabels (page : PageSize) (buf : Strbuf) (labels : LabelArray) : Nat → Option (Status × Strbuf)
  | 0 => some (strbufPrint page buf ['{'])
  | i + 1 => (marshalLabels page buf labels i).bind (marshalLabel page labels i)

def labelSetMarshal (page : PageSize) (buf : Strbuf) (labels : LabelArray) : Option (Status × Strbuf) :=
  (marshalLabels page buf labels labels.num).bind (orWrite (strbufPrint page) (some ['}']))

def unescapedChar (c : Char) : Char :=
  if c = 'n' then '\n' else if c = 'r' then '\r' else if c = 't' then '\t' else c

def parseValueLoop (page : PageSize) (buf : Strbuf) (ptr : CString) : Except Status (Strbuf × CString) :=
  match ptr with
  | [] => .error EINVAL
  | c :: rest =>
    if c = '"' then .ok (buf, rest)
    else
      let valid := strcspn (c :: rest) valueStop
      if valid ≠ 0 then
        parseValueLoop page (strbufPrintn page buf (c :: rest) valid).2 ((c :: rest).drop valid)
      else if c = '\n' then .error EINVAL
      else
        match rest with
        | [] => .error EINVAL
        | d :: rest => parseValueLoop page (strbufPrint page buf [unescapedChar d]).2 rest
termination_by ptr.length
decreasing_by
  · simp only [length_drop, length_cons]
    omega
  · simp only [length_cons]
    omega

def parseLabelValue (page : PageSize) (buf : Strbuf) (ptr : CString) :
    Except Status (Strbuf × CString) :=
  match ptr with
  | '"' :: rest => parseValueLoop page buf rest
  | _ => .error EINVAL

theorem parseValueLoop_suffix {next} (parsed : parseValueLoop page buf ptr = .ok (next, rest)) :
    ∃ consumed, ptr = consumed ++ '"' :: rest := by
  fun_induction parseValueLoop page buf ptr with
  | case1 => cases parsed
  | case2 buf text =>
    cases parsed
    exact ⟨[], rfl⟩
  | case3 buf c text quote valid some_valid ih =>
    obtain ⟨consumed, split⟩ := ih parsed
    exact ⟨(c :: text).take valid ++ consumed, by rw [append_assoc, ← split, take_append_drop]⟩
  | case4 | case5 => cases parsed
  | case6 buf c quote newline d text valid none_valid ih =>
    obtain ⟨consumed, split⟩ := ih parsed
    exact ⟨c :: d :: consumed, by simp [split]⟩

theorem parseLabelValue_suffix {next} (parsed : parseLabelValue page buf ptr = .ok (next, rest)) :
    ∃ consumed, ptr = consumed ++ '"' :: rest := by
  unfold parseLabelValue at parsed
  split at parsed
  · obtain ⟨consumed, split⟩ := parseValueLoop_suffix parsed
    exact ⟨'"' :: consumed, by simp [split]⟩
  · cases parsed

theorem parseValueLoop_error (failed : parseValueLoop page buf ptr = .error status) :
    status = EINVAL := by
  fun_induction parseValueLoop page buf ptr with
  | case1 | case4 | case5 => exact (Except.error.inj failed).symm
  | case2 => cases failed
  | case3 | case6 =>
    rename_i ih
    exact ih failed

theorem parseLabelValue_error (failed : parseLabelValue page buf ptr = .error status) :
    status = EINVAL := by
  unfold parseLabelValue at failed
  split at failed
  · exact parseValueLoop_error failed
  · exact (Except.error.inj failed).symm

def unmarshalLabel (page : PageSize) (labels : LabelArray) (value : Strbuf) (ptr : CString) :
    Option (Status × LabelArray × Strbuf × CString) :=
  let keyLen := strspn ptr validLabelChars
  if keyLen = 0 then some (EINVAL, labels, value, ptr)
  else
    match ptr.drop keyLen with
    | '=' :: rest =>
      match parseLabelValue page (strbufReset page value) rest with
      | .error status => some (status, labels, value, rest)
      | .ok (value, rest) =>
        (labelSetAdd labels (ptr.take keyLen) value.ptr).map fun (status, labels) =>
          (status, labels, value, rest)
    | rest => some (EINVAL, labels, value, rest)

theorem unmarshalLabel_suffix
    (read : unmarshalLabel page labels value ptr = some (0, labels', value', rest)) :
    ∃ consumed, ptr = consumed ++ '"' :: rest := by
  unfold unmarshalLabel at read
  dsimp only at read
  split at read
  · cases read
  · split at read
    · rename_i text dropped
      split at read
      · rename_i status failed
        obtain rfl := parseLabelValue_error failed
        cases read
      · rename_i next text' parsed
        obtain ⟨_, _, same⟩ := Option.map_eq_some_iff.mp read
        simp only [Prod.mk.injEq] at same
        obtain ⟨-, -, -, rfl⟩ := same
        obtain ⟨consumed, split⟩ := parseLabelValue_suffix parsed
        refine ⟨ptr.take (strspn ptr validLabelChars) ++ '=' :: consumed, ?_⟩
        conv_lhs => rw [← take_append_drop (strspn ptr validLabelChars) ptr, dropped, split]
        simp
    · cases read

def unmarshalLoop (page : PageSize) (labels : LabelArray) (value : Strbuf) (ptr : CString) :
    Option (Status × LabelArray × CString) :=
  match ptr with
  | [] => some (0, labels, [])
  | c :: rest =>
    if c = '{' ∨ c = ',' then
      match _read : unmarshalLabel page labels value rest with
      | none => none
      | some (status, labels, value, next) =>
        if _success : status = 0 then unmarshalLoop page labels value next
        else some (status, labels, next)
    else some (0, labels, c :: rest)
termination_by ptr.length
decreasing_by
  subst _success
  obtain ⟨consumed, split⟩ := unmarshalLabel_suffix _read
  simp only [split, length_append, length_cons]
  omega

def labelSetUnmarshal (page : PageSize) (labels : LabelArray) (inout : CString) :
    Option (Status × LabelArray × CString) :=
  if inout.head? ≠ some '{' then some (EINVAL, labels, inout)
  else
    (unmarshalLoop page labels .create inout).map fun (status, labels, ptr) =>
      if status ≠ 0 then (status, labels, inout)
      else
        match ptr with
        | '}' :: rest => (0, labels, rest)
        | _ => (EINVAL, labels, inout)

end NCollectd.LabelSet
