import NCollectd.Base.Libc

/-! `strbuf.c`: a string buffer that either grows on demand or has a fixed size. -/

namespace NCollectd

open List

structure PageSize where
  bytes : Nat
  positive : 0 < bytes

def strbufPagesize (sysconf : Int) : PageSize :=
  if found : 1 ≤ sysconf then ⟨sysconf.toNat, by omega⟩ else ⟨1024, by decide⟩

/-- `strbuf_t`: the text written so far, the allocated size and the fixed flag. -/
structure Strbuf where
  text : CString
  size : Nat
  fixed : Bool
  fits : text.length < size ∨ (text = [] ∧ size = 0)
deriving DecidableEq

/-- `STRBUF_CREATE`. -/
def Strbuf.create : Strbuf := ⟨[], 0, false, .inr ⟨rfl, rfl⟩⟩

def Strbuf.createFixed (size : Nat) : Strbuf :=
  ⟨[], size, true, by rcases Nat.eq_zero_or_pos size with empty | room <;> simp_all⟩

def Strbuf.ptr (buf : Strbuf) : Option CString := if buf.size = 0 then none else some buf.text

def strbufAvail (buf : Strbuf) : Nat := if buf.size = 0 then 0 else buf.size - (buf.text.length + 1)

theorem strbufAvail_fits (buf : Strbuf) (some_room : 0 < strbufAvail buf) :
    buf.text.length + strbufAvail buf < buf.size := by
  unfold strbufAvail at some_room ⊢
  split
  · simp_all
  · simp_all
    omega

def strbufGrownSize (page : PageSize) (size : Nat) : Nat :=
  if size = 0 then 512
  else if size < page.bytes then 2 * size
  else ((size + page.bytes - 1) / page.bytes + 1) * page.bytes

theorem strbufGrownSize_grows (page : PageSize) (size : Nat) : size < strbufGrownSize page size := by
  unfold strbufGrownSize
  split
  · omega
  · split
    · omega
    · have whole := Nat.div_add_mod (size + page.bytes - 1) page.bytes
      have part := Nat.mod_lt (size + page.bytes - 1) page.positive
      rw [Nat.add_mul, Nat.mul_comm _ page.bytes]
      omega

def strbufNewSize (page : PageSize) (buf : Strbuf) (need : Nat) : Nat :=
  let newSize := strbufGrownSize page buf.size
  if newSize < buf.text.length + need + 1 then buf.text.length + need + 1 else newSize

theorem strbufNewSize_holds (page : PageSize) (buf : Strbuf) (need : Nat) :
    buf.text.length + need + 1 ≤ strbufNewSize page buf need ∧
      buf.size < strbufNewSize page buf need := by
  have grows := strbufGrownSize_grows page buf.size
  unfold strbufNewSize
  dsimp only
  split
  · rename_i small
    exact ⟨le_refl _, lt_trans grows small⟩
  · rename_i large
    exact ⟨le_of_not_gt large, grows⟩

def strbufResize (page : PageSize) (buf : Strbuf) (need : Nat) : Strbuf :=
  if buf.fixed then buf
  else if need < strbufAvail buf then buf
  else { buf with
    size := strbufNewSize page buf need
    fits := .inl (lt_of_lt_of_le (by omega) (strbufNewSize_holds page buf need).1) }

def strbufWrite (buf : Strbuf) (s : CString) : Status × Strbuf :=
  let bytes := strbufAvail buf
  if room : 0 < bytes then
    (0, { buf with
      text := buf.text ++ s.take bytes
      fits := .inl (by
        have fits := strbufAvail_fits buf room
        simp only [length_append, length_take]
        omega) })
  else (ENOSPC, buf)

def strbufPrint (page : PageSize) (buf : Strbuf) (s : CString) : Status × Strbuf :=
  strbufWrite (strbufResize page buf s.length) s

def strbufPrintn (page : PageSize) (buf : Strbuf) (s : CString) (n : Nat) : Status × Strbuf :=
  if n = 0 then (0, buf)
  else strbufWrite (strbufResize page buf (s.take n).length) (s.take n)

def strbufReset (page : PageSize) (buf : Strbuf) : Strbuf :=
  { buf with
    text := []
    size := if !buf.fixed && page.bytes < buf.size then page.bytes else buf.size
    fits := by
      have positive := page.positive
      rcases buf.fits with fits | ⟨_, empty⟩
      · left
        split
        · exact positive
        · exact Nat.lt_of_le_of_lt (Nat.zero_le _) fits
      · right
        simp [empty] }

def escapedChar (escape c : Char) : Char :=
  if escape = '\\' then
    if c = '\n' then 'n' else if c = '\r' then 'r' else if c = '\t' then 't' else c
  else c

def strbufPrintEscaped (page : PageSize) (buf : Strbuf) (s needEscape : CString) (escape : Char) :
    Status × Strbuf :=
  match s with
  | [] => (0, buf)
  | c :: rest =>
    let valid := strcspn (c :: rest) needEscape
    if valid = (c :: rest).length then strbufPrint page buf (c :: rest)
    else if valid ≠ 0 then
      let (status, buf) := strbufPrintn page buf (c :: rest) valid
      if status ≠ 0 then (status, buf)
      else strbufPrintEscaped page buf ((c :: rest).drop valid) needEscape escape
    else if buf.fixed && strbufAvail buf < 2 then (0, buf)
    else
      let (status, buf) := strbufPrint page buf [escape, escapedChar escape c]
      if status ≠ 0 then (status, buf)
      else strbufPrintEscaped page buf rest needEscape escape
termination_by s.length
decreasing_by
  · simp only [length_drop, length_cons]
    omega
  · simp

/-- A write whose outcome on a growing buffer is that the text is appended. -/
def Appends (write : Strbuf → Status × Strbuf) (text : CString) : Prop :=
  ∀ buf, buf.fixed = false → ∃ next, write buf = (0, next) ∧ next.fixed = false ∧
    next.text = buf.text ++ text

theorem strbufResize_room (page : PageSize) (buf : Strbuf) (need : Nat)
    (growing : buf.fixed = false) :
    need ≤ strbufAvail (strbufResize page buf need) ∧ 0 < strbufAvail (strbufResize page buf need) ∧
      (strbufResize page buf need).fixed = false ∧ (strbufResize page buf need).text = buf.text := by
  unfold strbufResize
  rw [if_neg (by simp [growing])]
  split
  · rename_i room
    exact ⟨Nat.le_of_lt room, Nat.lt_of_le_of_lt (Nat.zero_le _) room, growing, rfl⟩
  · obtain ⟨holds, grows⟩ := strbufNewSize_holds page buf need
    have positive : strbufNewSize page buf need ≠ 0 := by omega
    simp only [strbufAvail, positive, if_false]
    refine ⟨by omega, ?_, growing, trivial⟩
    rcases buf.fits with fits | ⟨empty, none⟩
    · omega
    · have initial : 512 ≤ strbufNewSize page buf need := by
        simp only [strbufNewSize, strbufGrownSize, none, if_true]
        split <;> omega
      rw [empty, length_nil]
      omega

theorem strbufWrite_resized (page : PageSize) (s : CString) :
    Appends (fun buf => strbufWrite (strbufResize page buf s.length) s) s := by
  intro buf growing
  obtain ⟨enough, room, flag, text⟩ := strbufResize_room page buf s.length growing
  refine ⟨(strbufWrite (strbufResize page buf s.length) s).2, ?_⟩
  simp only [strbufWrite, room, dif_pos, flag, text, take_of_length_le enough, and_self]

theorem strbufPrint_appends (page : PageSize) (s : CString) :
    Appends (fun buf => strbufPrint page buf s) s :=
  strbufWrite_resized page s

theorem strbufPrintn_appends (page : PageSize) (s : CString) (n : Nat) :
    Appends (fun buf => strbufPrintn page buf s n) (s.take n) := by
  intro buf growing
  by_cases none : n = 0
  · exact ⟨buf, by simp [strbufPrintn, none], growing, by simp [none]⟩
  · obtain ⟨next, written, flag, text⟩ := strbufWrite_resized page (s.take n) buf growing
    exact ⟨next, by simpa [strbufPrintn, none] using written, flag, text⟩

def escapeText (needEscape : CString) (escape : Char) (s : CString) : CString :=
  s.flatMap fun c => if c ∈ needEscape then [escape, escapedChar escape c] else [c]

theorem escapeText_valid (s needEscape : CString) (escape : Char) (rest : CString) :
    escapeText needEscape escape (s.take (strcspn s needEscape) ++ rest) =
      s.take (strcspn s needEscape) ++ escapeText needEscape escape rest := by
  induction s with
  | nil => simp [strcspn]
  | cons c s ih =>
    by_cases special : c ∈ needEscape
    · simp [strcspn_eq_zero_of_mem special]
    · rw [strcspn_cons_of_notMem special]
      simp only [take_succ_cons, cons_append]
      rw [escapeText, flatMap_cons, if_neg special, singleton_append]
      exact congrArg _ ih

theorem strbufPrintEscaped_appends (page : PageSize) (s needEscape : CString) (escape : Char) :
    Appends (fun buf => strbufPrintEscaped page buf s needEscape escape)
      (escapeText needEscape escape s) := by
  intro buf growing
  beta_reduce
  fun_induction strbufPrintEscaped page buf s needEscape escape with
  | case1 buf => exact ⟨buf, rfl, growing, by simp [escapeText]⟩
  | case2 buf c rest valid whole =>
    obtain ⟨next, written, flag, text⟩ := strbufPrint_appends page (c :: rest) buf growing
    refine ⟨next, written, flag, ?_⟩
    have plain := escapeText_valid (c :: rest) needEscape escape []
    rw [show strcspn (c :: rest) needEscape = (c :: rest).length from whole, take_length] at plain
    simpa [text, escapeText] using plain.symm
  | case3 buf c rest valid part some_valid status middle written failed =>
    obtain ⟨next, success, _⟩ := strbufPrintn_appends page (c :: rest) valid buf growing
    exact absurd (congrArg Prod.fst (written.symm.trans success)) failed
  | case4 buf c rest valid part some_valid status middle written done ih =>
    obtain ⟨next, success, flag, text⟩ := strbufPrintn_appends page (c :: rest) valid buf growing
    have same : middle = next := congrArg Prod.snd (written.symm.trans success)
    obtain ⟨last, finished, last_flag, last_text⟩ := ih (same ▸ flag)
    refine ⟨last, finished, last_flag, ?_⟩
    have parts := escapeText_valid (c :: rest) needEscape escape ((c :: rest).drop valid)
    rw [take_append_drop] at parts
    rw [last_text, same, text, append_assoc, parts]
  | case5 buf c rest valid part none_valid full => simp [growing] at full
  | case6 buf c rest valid part none_valid room status middle written failed =>
    obtain ⟨next, success, _⟩ :=
      strbufPrint_appends page [escape, escapedChar escape c] buf growing
    exact absurd (congrArg Prod.fst (written.symm.trans success)) failed
  | case7 buf c rest valid part none_valid room status middle written done ih =>
    obtain ⟨next, success, flag, text⟩ :=
      strbufPrint_appends page [escape, escapedChar escape c] buf growing
    have same : middle = next := congrArg Prod.snd (written.symm.trans success)
    obtain ⟨last, finished, last_flag, last_text⟩ := ih (same ▸ flag)
    refine ⟨last, finished, last_flag, ?_⟩
    have special : c ∈ needEscape := by
      by_contra ordinary
      have zero : strcspn (c :: rest) needEscape = 0 := not_not.mp none_valid
      rw [strcspn_cons_of_notMem ordinary] at zero
      exact Nat.succ_ne_zero _ zero
    rw [last_text, same, text, append_assoc]
    simp [escapeText, special]

end NCollectd
