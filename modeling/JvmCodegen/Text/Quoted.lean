/-
**Quoted text.**

Reports show a text between double quotes.  The quote itself, the backslash and the characters that
cannot be shown as they are stand behind a backslash: a few by a letter of their own, the others by
their code.

Main definitions: `Quoted.escapeChar` and `Quoted.quote`.

Main result: `Quoted.escapeChar_of_isPrintable` — a printable character other than the quote and the
backslash stands for itself.
-/

import JvmCodegen.Text.Printable

set_option relaxedAutoImplicit false
set_option autoImplicit false

namespace JvmCodegen.Quoted

/-- A character by its code, in hexadecimal digits. -/
def codeEscape (c : Char) : List Char :=
  ['\\', 'u', '\x7b'] ++ Nat.toDigits 16 c.toNat ++ ['\x7d']

/-- The form of a character between quotes. -/
def escapeChar (c : Char) : List Char :=
  match c with
  | '\x00' => ['\\', '0']
  | '\t' => ['\\', 't']
  | '\r' => ['\\', 'r']
  | '\n' => ['\\', 'n']
  | '\\' => ['\\', '\\']
  | '"' => ['\\', '"']
  | c => if Printable.isPrintable c then [c] else codeEscape c

/-- **A text between quotes.** -/
def quote (s : String) : String :=
  String.ofList ('"' :: (s.toList.flatMap escapeChar ++ ['"']))

theorem escapeChar_of_isPrintable {c : Char} (h : Printable.isPrintable c = true) (hq : c ≠ '"')
    (hb : c ≠ '\\') : escapeChar c = [c] := by
  unfold escapeChar
  split
  · exact absurd h (by decide)
  · exact absurd h (by decide)
  · exact absurd h (by decide)
  · exact absurd h (by decide)
  · exact absurd rfl hb
  · exact absurd rfl hq
  · exact if_pos h

end JvmCodegen.Quoted
