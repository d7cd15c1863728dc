import NCollectd.Base.Libc

namespace NCollectd.Cmds

/-- `cmd_status_t`. -/
inductive CmdStatus where
  | ok
  | error
  | parseError
  | unknownCommand
  | noOption
deriving DecidableEq

/-- `cmd_options_t`. -/
structure CmdOptions where
  identifierDefaultHost : Option CString

def strncasecmp (s t : CString) (n : Nat) : Int := strcasecmp (s.take n) (t.take n)

def isKeyChar (c : Char) : Bool := c.isAlphanum || c = '_' || c = ':'

def cmdParseOption (field : CString) : Except CmdStatus (CString × CString) :=
  let key := field.takeWhile isKeyChar
  match field.dropWhile isKeyChar with
  | '=' :: value => if key = [] then .error .noOption else .ok (key, value)
  | _ => .error .noOption

theorem cmdParseOption_error (failed : cmdParseOption field = .error status) : status = .noOption := by
  unfold cmdParseOption at failed
  grind

section Options

variable {key : CString} (keyChars : ∀ c ∈ key, isKeyChar c = true)
include keyChars

theorem cmdParseOption_option (filled : key ≠ []) (value : CString) :
    cmdParseOption (key ++ '=' :: value) = .ok (key, value) := by
  have stop : isKeyChar '=' = false := by decide
  have front : (key ++ '=' :: value).takeWhile isKeyChar = key := by
    rw [List.takeWhile_append_of_pos keyChars, List.takeWhile_cons_of_neg (by simp [stop]), List.append_nil]
  have back : (key ++ '=' :: value).dropWhile isKeyChar = '=' :: value := by
    rw [List.dropWhile_append_of_pos keyChars, List.dropWhile_cons_of_neg (by simp [stop])]
  simp only [cmdParseOption, front, back, if_neg filled]

theorem cmdParseOption_word : cmdParseOption key = .error .noOption := by
  have back : key.dropWhile isKeyChar = [] := List.dropWhile_eq_nil_iff.mpr keyChars
  simp only [cmdParseOption, back]

end Options

end NCollectd.Cmds
