import NCollectd.LabelSet.Text
import NCollectd.Distribution.Model

/-! `metric.c`: typed values, metrics and their textual identity. -/

namespace NCollectd

open LabelSet

/-- `cdtime_t`, in units of 2⁻³⁰ seconds. -/
abbrev CdTime := UInt64

/-- `metric_type_t`. -/
inductive MetricType where
  | counter
  | gauge
  | untyped
  | distribution
deriving DecidableEq

def MetricType.number : MetricType → Nat
  | counter => 0
  | gauge => 1
  | untyped => 2
  | distribution => 3

/-- `value_t`, with the member of the union that was written last. -/
inductive Value where
  | counter (value : UInt64)
  | gauge (value : Double)
  | derive (value : Int)
  | distribution (value : Option Distribution)
deriving DecidableEq

def Value.counter? : Value → Option UInt64
  | .counter value => some value
  | _ => none

def Value.gauge? : Value → Option Double
  | .gauge value => some value
  | _ => none

def Value.distribution? : Value → Option (Option Distribution)
  | .distribution value => some value
  | _ => none

theorem Value.counter?_eq_some {v : Value} : v.counter? = some value ↔ v = .counter value := by
  cases v <;> simp [Value.counter?]

theorem Value.gauge?_eq_some {v : Value} : v.gauge? = some value ↔ v = .gauge value := by
  cases v <;> simp [Value.gauge?]

theorem Value.distribution?_eq_some {v : Value} : v.distribution? = some value ↔ v = .distribution value := by
  cases v <;> simp [Value.distribution?]

/-- `typed_value_t`. -/
structure TypedValue where
  value : Value
  type : MetricType
deriving DecidableEq

def typedValueCreate (value : Value) (type : MetricType) : Option TypedValue :=
  if type = .distribution then
    value.distribution?.map fun dist => ⟨.distribution (distributionClone dist), type⟩
  else some ⟨value, type⟩

/-- The part of `metric_family_t` its metrics refer to. -/
structure MetricFamily where
  name : CString
  type : MetricType
deriving DecidableEq

/-- `metric_t`. -/
structure Metric where
  family : MetricFamily
  label : LabelArray
  value : Value
  time : CdTime
  interval : CdTime
deriving DecidableEq

def validNameChars : CString := validLabelChars ++ [':']

def metricIdentity (page : PageSize) (buf : Strbuf) (m : Metric) : Option (Status × Strbuf) :=
  let (status, buf) := strbufPrint page buf m.family.name
  if m.label.num = 0 then some (status, buf)
  else if status ≠ 0 then some (1, buf)
  else
    (labelSetMarshal page buf m.label).map fun (status, buf) => (if status ≠ 0 then 1 else 0, buf)

def metricLabelSet (m : Metric) (name : CString) (value : Option CString) : Option (Status × Metric) :=
  (labelSetAdd m.label name value).map fun (status, label) => (status, { m with label })

def metricFamilyUnmarshalIdentity (page : PageSize) (label : LabelArray) (inout : CString) :
    Option (Except Status (CString × LabelArray × CString)) :=
  let nameLen := strspn inout validNameChars
  if nameLen = 0 then some (.error EINVAL)
  else
    let name := inout.take nameLen
    let ptr := inout.drop nameLen
    if ptr.head?.all (· = ' ') then some (.ok (name, label, ptr))
    else
      (labelSetUnmarshal page label ptr).map fun (status, label, ptr) =>
        if status ≠ 0 then .error status
        else if ptr.head? ≠ some '}' ∨ !ptr.tail.head?.all (· = ' ') then .error EINVAL
        else .ok (name, label, ptr.tail)

def metricParseIdentity (page : PageSize) (buf : CString) : Option (Except Status Metric) :=
  (metricFamilyUnmarshalIdentity page .empty buf).map fun
    | .error status => .error status
    | .ok (name, label, rest) =>
      if rest ≠ [] then .error EINVAL
      else .ok ⟨⟨name, .untyped⟩, label, .gauge (.fin 0), 0, 0⟩

end NCollectd
