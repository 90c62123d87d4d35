import TileWorld.Json.Skim

/-! The grammar of JSON texts, stated without the readers. `R cs a rest` says that `cs` begins with
a text for `a` and goes on with `rest`. -/

namespace TileWorld.Json.Grammar

/-! ## Blanks -/

inductive Blanks : List Char → List Char → Prop where
  | none (rest : List Char) : Blanks rest rest
  | cons {c : Char} {cs rest : List Char} (hc : isBlank c = true) (h : Blanks cs rest) :
      Blanks (c :: cs) rest

/-! ## Strings -/

inductive CodeUnit : List Char → Nat → List Char → Prop where
  | mk {a b c d : Char} {i j k l : Nat} (rest : List Char) (ha : hexDigit? a = some i)
      (hb : hexDigit? b = some j) (hc : hexDigit? c = some k) (hd : hexDigit? d = some l) :
      CodeUnit (a :: b :: c :: d :: rest) (((i * 16 + j) * 16 + k) * 16 + l) rest

/-- The first half of a pair. -/
def Leading (u : Nat) : Prop := 0xD800 ≤ u ∧ u < 0xDC00

def Trailing (u : Nat) : Prop := 0xDC00 ≤ u ∧ u < 0xE000

instance (u : Nat) : Decidable (Leading u) := inferInstanceAs (Decidable (_ ∧ _))

instance (u : Nat) : Decidable (Trailing u) := inferInstanceAs (Decidable (_ ∧ _))

/-- One character of a string, in one of the ways to write it. -/
inductive Letter : List Char → Char → List Char → Prop where
  | plain {c : Char} (rest : List Char) (hquote : c ≠ '"') (hslash : c ≠ '\\')
      (hc : 0x20 ≤ c.toNat) : Letter (c :: rest) c rest
  | escape {c d : Char} (rest : List Char) (hc : unescape? c = some d) :
      Letter ('\\' :: c :: rest) d rest
  | unit {u : Nat} {cs rest : List Char} (hu : CodeUnit cs u rest) (hlead : ¬ Leading u)
      (htrail : ¬ Trailing u) : Letter ('\\' :: 'u' :: cs) (.ofNat u) rest
  | pair {u v : Nat} {cs left rest : List Char} (hu : CodeUnit cs u ('\\' :: 'u' :: left))
      (hlead : Leading u) (hv : CodeUnit left v rest) (htrail : Trailing v) :
      Letter ('\\' :: 'u' :: cs) (.ofNat (0x10000 + (u - 0xD800) * 0x400 + (v - 0xDC00))) rest

/-- The characters of a string, up to and with its closing quote. -/
inductive Spells : List Char → List Char → List Char → Prop where
  | close (rest : List Char) : Spells ('"' :: rest) [] rest
  | letter {c : Char} {cs left s rest : List Char} (hc : Letter cs c left)
      (h : Spells left s rest) : Spells cs (c :: s) rest

/-- One character of a string that is passed over. -/
inductive PassedLetter : List Char → List Char → Prop where
  | plain {c : Char} (rest : List Char) (hquote : c ≠ '"') (hslash : c ≠ '\\')
      (hc : 0x20 ≤ c.toNat) : PassedLetter (c :: rest) rest
  | escape {c d : Char} (rest : List Char) (hc : unescape? c = some d) :
      PassedLetter ('\\' :: c :: rest) rest
  | unit {u : Nat} {cs rest : List Char} (hu : CodeUnit cs u rest) :
      PassedLetter ('\\' :: 'u' :: cs) rest

inductive PassedString : List Char → List Char → Prop where
  | close (rest : List Char) : PassedString ('"' :: rest) rest
  | letter {cs left rest : List Char} (hc : PassedLetter cs left) (h : PassedString left rest) :
      PassedString cs rest

/-! ## Numbers -/

/-- At least one digit. -/
inductive Digits : List Char → List Nat → List Char → Prop where
  | last {c : Char} {d : Nat} (rest : List Char) (hc : Number.digit? c = some d) :
      Digits (c :: rest) [d] rest
  | cons {c : Char} {d : Nat} {cs rest : List Char} {ds : List Nat}
      (hc : Number.digit? c = some d) (h : Digits cs ds rest) : Digits (c :: cs) (d :: ds) rest

inductive Sign : List Char → Bool → List Char → Prop where
  | plus (rest : List Char) : Sign rest false rest
  | minus (rest : List Char) : Sign ('-' :: rest) true rest

/-- Zero, or digits that do not begin with zero. -/
inductive Whole : List Char → List Nat → List Char → Prop where
  | zero (rest : List Char) : Whole ('0' :: rest) [0] rest
  | digits {cs rest : List Char} {ds : List Nat} (h : Digits cs ds rest)
      (hzero : ds.head? ≠ some 0) : Whole cs ds rest

inductive Fraction : List Char → Option (List Nat) → List Char → Prop where
  | absent (rest : List Char) : Fraction rest none rest
  | present {cs rest : List Char} {ds : List Nat} (h : Digits cs ds rest) :
      Fraction ('.' :: cs) (some ds) rest

inductive Exponent : List Char → Option Int → List Char → Prop where
  | absent (rest : List Char) : Exponent rest none rest
  | bare {e : Char} {cs rest : List Char} {ds : List Nat} (he : e = 'e' ∨ e = 'E')
      (h : Digits cs ds rest) : Exponent (e :: cs) (some (Number.ofDigits ds)) rest
  | plus {e : Char} {cs rest : List Char} {ds : List Nat} (he : e = 'e' ∨ e = 'E')
      (h : Digits cs ds rest) : Exponent (e :: '+' :: cs) (some (Number.ofDigits ds)) rest
  | minus {e : Char} {cs rest : List Char} {ds : List Nat} (he : e = 'e' ∨ e = 'E')
      (h : Digits cs ds rest) : Exponent (e :: '-' :: cs) (some (-Number.ofDigits ds)) rest

inductive Numeral : List Char → Number.Literal → List Char → Prop where
  | mk {cs left₁ left₂ left₃ rest : List Char} {negative : Bool} {whole : List Nat}
      {fraction : Option (List Nat)} {exponent : Option Int} (hsign : Sign cs negative left₁)
      (hwhole : Whole left₁ whole left₂) (hfraction : Fraction left₂ fraction left₃)
      (hexponent : Exponent left₃ exponent rest) :
      Numeral cs ⟨negative, whole, fraction, exponent⟩ rest

/-! ## Sequences -/

section Sequences

variable {α β : Type}

/-- Items behind the first, each behind a comma, and the closing character. -/
inductive Further (close : Char) (Item : List Char → α → List Char → Prop) :
    List Char → List α → List Char → Prop where
  | close {cs rest : List Char} (h : Blanks cs (close :: rest)) : Further close Item cs [] rest
  | item {cs left left' rest : List Char} {a : α} {as : List α} (hcomma : Blanks cs (',' :: left))
      (ha : Item left a left') (h : Further close Item left' as rest) :
      Further close Item cs (a :: as) rest

/-- Items between commas, and the closing character. -/
inductive Sequence (close : Char) (Item : List Char → α → List Char → Prop) :
    List Char → List α → List Char → Prop where
  | empty {cs rest : List Char} (h : Blanks cs (close :: rest)) : Sequence close Item cs [] rest
  | items {cs left left' rest : List Char} {a : α} {as : List α} (hblanks : Blanks cs left)
      (ha : Item left a left') (h : Further close Item left' as rest) :
      Sequence close Item cs (a :: as) rest

inductive Name : List Char → String → List Char → Prop where
  | mk {cs left left' rest name : List Char} (hquote : Blanks cs ('"' :: left))
      (hname : Spells left name left') (hcolon : Blanks left' (':' :: rest)) :
      Name cs (.ofList name) rest

/-- A name and what it names. -/
inductive Field (Item : List Char → α → List Char → Prop) :
    List Char → String × α → List Char → Prop where
  | mk {cs left rest : List Char} {name : String} {a : α} (hname : Name cs name left)
      (ha : Item left a rest) : Field Item cs (name, a) rest

end Sequences

/-! ## Values -/

/-- A value that is neither array nor object. -/
inductive Scalar : List Char → Json → List Char → Prop where
  | null (rest : List Char) : Scalar ('n' :: 'u' :: 'l' :: 'l' :: rest) .null rest
  | true (rest : List Char) : Scalar ('t' :: 'r' :: 'u' :: 'e' :: rest) (.bool true) rest
  | false (rest : List Char) :
      Scalar ('f' :: 'a' :: 'l' :: 's' :: 'e' :: rest) (.bool false) rest
  | string {cs s rest : List Char} (h : Spells cs s rest) :
      Scalar ('"' :: cs) (.string (.ofList s)) rest
  | number {cs rest : List Char} {l : Number.Literal} {r : Number.Reading} (h : Numeral cs l rest)
      (hr : l.reading? = some r) : Scalar cs (ofReading r) rest

/-- One level of a value, with `Inner` inside its brackets. -/
inductive Level (Inner : List Char → Json → List Char → Prop) :
    List Char → Json → List Char → Prop where
  | scalar {cs rest : List Char} {j : Json} (h : Scalar cs j rest) : Level Inner cs j rest
  | array {cs rest : List Char} {items : List Json} (h : Sequence ']' Inner cs items rest) :
      Level Inner ('[' :: cs) (.array items) rest
  | object {cs rest : List Char} {fields : List (String × Json)}
      (h : Sequence '\x7d' (Field Inner) cs fields rest) :
      Level Inner ('\x7b' :: cs) (ofFields fields) rest

/-- A value with at most `depth` arrays and objects inside each other. -/
def Value : Nat → List Char → Json → List Char → Prop
  | 0, cs, j, rest => ∃ left, Blanks cs left ∧ Scalar left j rest
  | depth + 1, cs, j, rest => ∃ left, Blanks cs left ∧ Level (Value depth) left j rest

/-! ## Values that are passed over -/

inductive PassedScalar : List Char → List Char → Prop where
  | null (rest : List Char) : PassedScalar ('n' :: 'u' :: 'l' :: 'l' :: rest) rest
  | true (rest : List Char) : PassedScalar ('t' :: 'r' :: 'u' :: 'e' :: rest) rest
  | false (rest : List Char) : PassedScalar ('f' :: 'a' :: 'l' :: 's' :: 'e' :: rest) rest
  | string {cs rest : List Char} (h : PassedString cs rest) : PassedScalar ('"' :: cs) rest
  | number {cs rest : List Char} {l : Number.Literal} (h : Numeral cs l rest) :
      PassedScalar cs rest

/-- What can be passed over: a value, what stands in brackets, one item of it, and what follows an
item. -/
inductive Part where
  | value
  | inside (b : Bracket)
  | item (b : Bracket)
  | further (b : Bracket)

inductive Passed : Part → List Char → List Char → Prop where
  | scalar {cs left rest : List Char} (hblanks : Blanks cs left) (h : PassedScalar left rest) :
      Passed .value cs rest
  | square {cs left rest : List Char} (hblanks : Blanks cs ('[' :: left))
      (h : Passed (.inside .square) left rest) : Passed .value cs rest
  | brace {cs left rest : List Char} (hblanks : Blanks cs ('\x7b' :: left))
      (h : Passed (.inside .brace) left rest) : Passed .value cs rest
  | empty {b : Bracket} {cs rest : List Char} (h : Blanks cs (b.close :: rest)) :
      Passed (.inside b) cs rest
  | items {b : Bracket} {cs left left' rest : List Char} (hblanks : Blanks cs left)
      (hitem : Passed (.item b) left left') (h : Passed (.further b) left' rest) :
      Passed (.inside b) cs rest
  | element {cs rest : List Char} (h : Passed .value cs rest) : Passed (.item .square) cs rest
  | field {cs left left' left'' rest : List Char} (hquote : Blanks cs ('"' :: left))
      (hname : PassedString left left') (hcolon : Blanks left' (':' :: left''))
      (h : Passed .value left'' rest) : Passed (.item .brace) cs rest
  | close {b : Bracket} {cs rest : List Char} (h : Blanks cs (b.close :: rest)) :
      Passed (.further b) cs rest
  | further {b : Bracket} {cs left left' rest : List Char} (hcomma : Blanks cs (',' :: left))
      (hitem : Passed (.item b) left left') (h : Passed (.further b) left' rest) :
      Passed (.further b) cs rest

end TileWorld.Json.Grammar
