import HostScript.Text.Printable

/-!
# Quoted text

How a text is written inside a message: between double quotes, on one line, with every character
that has no glyph of its own spelt out.
-/

namespace HostScript.Text

def hexDigits (n : Nat) : String :=
  String.ofList (Nat.toDigits 16 n)

def escapeChar (c : Char) : String :=
  match c with
  | '"' => "\\\""
  | '\\' => "\\\\"
  | '\n' => "\\n"
  | '\r' => "\\r"
  | '\t' => "\\t"
  | '\x00' => "\\0"
  | _ => if isPrintable c then String.singleton c else "\\u\x7b" ++ hexDigits c.toNat ++ "\x7d"

def quote (s : String) : String :=
  "\"" ++ String.join (s.toList.map escapeChar) ++ "\""

def commaSeparated (parts : List String) : String :=
  ", ".intercalate parts

end HostScript.Text
