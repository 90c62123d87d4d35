import TileWorld.Text.Unprintable

/-! # Names quoted in error messages -/

namespace TileWorld.Text

def hexChars (n : Nat) : List Char := Nat.toDigits 16 n

def quotedChar (c : Char) : List Char :=
  match c with
  | '"' => ['\\', '"']
  | '\\' => ['\\', '\\']
  | '\t' => ['\\', 't']
  | '\r' => ['\\', 'r']
  | '\n' => ['\\', 'n']
  | '\x00' => ['\\', '0']
  | c => if isUnprintable c then ['\\', 'u', '\x7b'] ++ hexChars c.toNat ++ ['\x7d'] else [c]

def quoted (s : String) : String :=
  .ofList ('"' :: s.toList.flatMap quotedChar ++ ['"'])

end TileWorld.Text
