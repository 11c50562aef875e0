import ScriptDebug.Json.Basic
import ScriptDebug.Text.Blank
import ScriptDebug.Text.Numeral

/-!
# Execution handles

A handle names an execution of the script runtime: a call stack or coroutine. It is a 64-bit word,
shown as a hexadecimal token, and read from such a token or from a decimal numeral.
-/

namespace ScriptDebug

/-- **Handle.** The key of one execution. -/
structure Handle where
  raw : UInt64
  deriving DecidableEq, Repr, Inhabited, Hashable

namespace Handle

/-- The handle with the given number. -/
def ofNat (n : Nat) : Handle := ⟨n.toUInt64⟩

/-- Handles are ordered by their number. -/
instance : LT Handle := ⟨fun a b => a.raw < b.raw⟩

instance : DecidableLT Handle := fun a b => inferInstanceAs (Decidable (a.raw < b.raw))

theorem lt_trans (a b c : Handle) (hab : a < b) (hbc : b < c) : a < c :=
  UInt64.lt_trans hab hbc

theorem lt_of_not_lt (a b : Handle) (h : ¬ a < b) (hne : a ≠ b) : b < a := by
  refine UInt64.lt_of_le_of_ne (UInt64.not_lt.1 h) fun heq => hne ?_
  cases a
  cases b
  cases heq
  rfl

/-- **Token.** `0x` and the number in hexadecimal. -/
def token (h : Handle) : String := Text.hexToken h.raw.toNat

instance : ToString Handle := ⟨token⟩

/-- A text that names no handle. -/
structure Malformed where
  text : String
  deriving DecidableEq, Repr

/-- The wording of a malformed token. -/
def Malformed.message (m : Malformed) : String :=
  s!"invalid execution handle: {Text.quoted m.text}"

/-- The number that trimmed characters denote: hexadecimal behind `0x` or `0X`, else decimal. -/
def numeral? : List Char → Option Nat
  | '0' :: 'x' :: cs => Text.ofNumeral? 16 cs
  | '0' :: 'X' :: cs => Text.ofNumeral? 16 cs
  | cs => Text.ofNumeral? 10 cs

/-- **Read a token,** blanks around it aside. -/
def parse (s : String) : Except Malformed Handle :=
  match numeral? (Text.trimChars s.toList) with
  | some n => if n < 0x10000000000000000 then .ok (ofNat n) else .error ⟨Text.trim s⟩
  | none => .error ⟨Text.trim s⟩

/-- The JSON form of a handle is its token. -/
def json (h : Handle) : Json := .string h.token

end Handle

end ScriptDebug
