import NCollectd.Utils.Strbuf

namespace NCollectd.FormatJson

open List

/-- The statuses of `json_metric_family` and `yajl_gen_get_buf`, and the text between the brackets. -/
abbrev Generator (α : Type) := α → Status × CString

def overwriteLast (buf : Strbuf) : Strbuf where
  text := buf.text.dropLast ++ if buf.text = [] then [] else [',']
  size := buf.size
  fixed := buf.fixed
  fits := by
    have fits := buf.fits
    split <;> simp_all
    have positive := length_pos_iff.mpr ‹buf.text ≠ []›
    omega

def formatJsonMetricFamily (page : PageSize) (generate : Generator α) (buf : Strbuf) (fam : Option α) :
    Option (Status × Strbuf) :=
  match fam with
  | none => some (EINVAL, buf)
  | some fam =>
    let (status, text) := generate fam
    let out := '[' :: (text ++ [']'])
    if status ≠ 0 then some (status, buf)
    else if buf.fixed ∧ strbufAvail buf < out.length then some (ENOBUFS, buf)
    else if buf.text = [] then some (strbufPrint page buf out)
    else if buf.text.getLast? = some ']' ∧ out.head? = some '[' then
      some (strbufPrint page (overwriteLast buf) out.tail)
    else none

def batch (texts : List CString) : CString :=
  if texts = [] then [] else '[' :: ([','].intercalate texts ++ [']'])

def formatRun (page : PageSize) (generate : Generator α) :
    Strbuf → List (Option α) → Option (List α × Strbuf)
  | buf, [] => some ([], buf)
  | buf, fam :: fams => do
    let (status, buf) ← formatJsonMetricFamily page generate buf fam
    let (done, buf) ← formatRun page generate buf fams
    some ((if status = 0 then fam.toList else []) ++ done, buf)

theorem strbufPrint_whole (buf : Strbuf) (page : PageSize) (s : CString)
    (room : buf.fixed = true → s.length ≤ strbufAvail buf ∧ 0 < strbufAvail buf) :
    ∃ next, strbufPrint page buf s = (0, next) ∧ next.text = buf.text ++ s := by
  cases fixed : buf.fixed with
  | false =>
    obtain ⟨next, written, _, text⟩ := strbufPrint_appends page s buf fixed
    exact ⟨next, written, text⟩
  | true =>
    obtain ⟨enough, some⟩ := room fixed
    simp [strbufPrint, strbufResize, fixed, strbufWrite, some, take_of_length_le enough]

theorem intercalate_concat (some : texts ≠ []) :
    [','].intercalate (texts ++ [text]) = [','].intercalate texts ++ ',' :: text := by
  induction texts with
  | nil => exact absurd rfl some
  | cons first texts ih => cases texts <;> simp_all [intercalate, intersperse]

theorem overwriteLast_batch (some : texts ≠ []) (held : buf.text = batch texts) :
    (overwriteLast buf).text ++ (text ++ [']']) = batch (texts ++ [text]) := by
  have front : (overwriteLast buf).text = '[' :: [','].intercalate texts ++ [','] := by
    have text : buf.text = ('[' :: [','].intercalate texts) ++ [']'] := by rw [held, batch, if_neg some, cons_append]
    simp only [overwriteLast, text, dropLast_concat, append_eq_nil_iff, reduceCtorEq, false_and, if_false]
  rw [front, batch, if_neg (by simp), intercalate_concat some]
  simp

theorem format_step (page : PageSize) (generate : Generator α) (held : buf.text = batch texts) (fam : Option α) :
    ∃ status next, formatJsonMetricFamily page generate buf fam = some (status, next) ∧
      (status ≠ 0 → next = buf) ∧
      (status = 0 → next.text = batch (texts ++ fam.toList.map fun fam => (generate fam).2)) ∧
      ∀ given ∈ fam, (generate given).1 = 0 →
        (buf.fixed = true → (generate given).2.length + 2 ≤ strbufAvail buf) → status = 0 := by
  cases fam with
  | none => exact ⟨EINVAL, buf, rfl, fun _ => rfl, fun zero => absurd zero (by decide), by simp⟩
  | some fam =>
    rcases generated : generate fam with ⟨status, text⟩
    by_cases failed : status ≠ 0
    · exact ⟨status, buf, by simp [formatJsonMetricFamily, generated, failed], fun _ => rfl,
        fun zero => absurd zero failed, by simp [generated, failed]⟩
    by_cases full : buf.fixed ∧ strbufAvail buf < ('[' :: (text ++ [']'])).length
    · exact ⟨ENOBUFS, buf, by simp only [formatJsonMetricFamily, generated, if_neg failed, if_pos full],
        fun _ => rfl, fun zero => absurd zero (by decide), fun given same _ room => by
          cases same
          have fits := room full.1
          simp only [generated, length_cons, length_append, length_nil] at fits full
          omega⟩
    have room (fixed : buf.fixed = true) : ('[' :: (text ++ [']'])).length ≤ strbufAvail buf :=
      le_of_not_gt fun less => full ⟨fixed, less⟩
    simp only [formatJsonMetricFamily, generated, if_neg failed, if_neg full, Option.toList_some, map_cons, map_nil]
    by_cases first : texts = []
    · have empty : buf.text = [] := by rw [held, batch, if_pos first]
      obtain ⟨next, written, printed⟩ := strbufPrint_whole buf page ('[' :: (text ++ [']'])) fun fixed =>
        ⟨room fixed, lt_of_lt_of_le (Nat.succ_pos _) (room fixed)⟩
      exact ⟨0, next, by rw [if_pos empty, written], fun wrong => absurd rfl wrong, fun _ => by
        simp [printed, empty, first, batch], fun _ _ _ _ => rfl⟩
    · have some : buf.text ≠ [] := by simp [held, batch, first]
      have bracket : buf.text.getLast? = Option.some ']' := by
        rw [held, batch, if_neg first, ← cons_append, getLast?_concat]
      have avail : strbufAvail (overwriteLast buf) = strbufAvail buf := by
        have positive := length_pos_iff.mpr some
        simp [strbufAvail, overwriteLast, some, Nat.sub_add_cancel positive]
      obtain ⟨next, written, printed⟩ := strbufPrint_whole (overwriteLast buf) page (text ++ [']']) fun fixed => by
        rw [avail]
        exact ⟨Nat.le_of_succ_le (room fixed), lt_of_lt_of_le (Nat.succ_pos _) (room fixed)⟩
      exact ⟨0, next, by rw [if_neg some, if_pos ⟨bracket, rfl⟩, tail_cons, written], fun wrong => absurd rfl wrong,
        fun _ => by rw [printed, overwriteLast_batch first held], fun _ _ _ _ => rfl⟩

/-- A family that is encoded and fits is taken. -/
theorem formatJsonMetricFamily_fits (page : PageSize) {generate : Generator α} (held : buf.text = batch texts)
    (encoded : generate fam = (0, text)) (room : buf.fixed = true → text.length + 2 ≤ strbufAvail buf) :
    ∃ next, formatJsonMetricFamily page generate buf (some fam) = some (0, next) := by
  obtain ⟨status, next, called, _, _, taken⟩ := format_step page generate held (some fam)
  rw [taken fam rfl (by rw [encoded]) (by rwa [encoded])] at called
  exact ⟨next, called⟩

theorem formatRun_batch (page : PageSize) (generate : Generator α) (fams : List (Option α))
    (held : buf.text = batch texts) :
    ∃ done last, formatRun page generate buf fams = some (done, last) ∧
      last.text = batch (texts ++ done.map fun fam => (generate fam).2) := by
  induction fams generalizing buf texts with
  | nil => exact ⟨[], buf, rfl, by simpa using held⟩
  | cons fam fams ih =>
    obtain ⟨status, next, called, failed, success, _⟩ := format_step page generate held fam
    by_cases zero : status = 0
    · obtain ⟨done, last, ran, text⟩ := ih (success zero)
      exact ⟨fam.toList ++ done, last, by simp [formatRun, called, ran, zero], by simp [text]⟩
    · obtain ⟨done, last, ran, text⟩ := ih (failed zero ▸ held)
      exact ⟨done, last, by simp [formatRun, called, ran, zero], text⟩

/-- Whatever the calls return, the text is the batch of the families that were taken. -/
theorem json_batches (page : PageSize) (generate : Generator α) (buf : Strbuf) (empty : buf.text = [])
    (fams : List (Option α)) :
    ∃ done last, formatRun page generate buf fams = some (done, last) ∧
      last.text = batch (done.map fun fam => (generate fam).2) ∧
      ∀ fam, ∃ status next, formatJsonMetricFamily page generate last fam = some (status, next) ∧
        (status ≠ 0 → next = last) := by
  have held : buf.text = batch [] := empty
  obtain ⟨done, last, ran, text⟩ := formatRun_batch page generate fams held
  refine ⟨done, last, ran, text, fun fam => ?_⟩
  obtain ⟨status, next, called, failed, _⟩ := format_step page generate text fam
  exact ⟨status, next, called, failed⟩

theorem json_batches_two : ∃ last,
    formatRun (strbufPagesize 0) (fun text => (0, text)) (.createFixed 8) [some ['1'], none, some ['2']] =
      some ([['1'], ['2']], last) ∧ last.text = "[1,2]" ∧
    ∀ fam, ∃ status next, formatJsonMetricFamily (strbufPagesize 0) (fun text => (0, text)) last fam =
      some (status, next) ∧ (status ≠ 0 → next = last) := by
  obtain ⟨done, last, ran, text, step⟩ :=
    json_batches (strbufPagesize 0) (fun text => (0, text)) (.createFixed 8) rfl [some ['1'], none, some ['2']]
  have both : (formatRun (strbufPagesize 0) (fun text => (0, text)) (.createFixed 8)
      [some ['1'], none, some ['2']]).map Prod.fst = some [['1'], ['2']] := by decide +kernel
  rw [ran, Option.map_some, Option.some.injEq] at both
  obtain rfl : done = [['1'], ['2']] := both
  exact ⟨last, ran, text.trans (by decide), step⟩

end NCollectd.FormatJson
