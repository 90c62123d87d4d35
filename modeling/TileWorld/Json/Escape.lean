/-! JSON strings and their escapes. What `escape` writes, `stringBody` reads back. -/

namespace TileWorld.Json

def unitChars (n : Nat) : List Char :=
  [n / 4096 % 16, n / 256 % 16, n / 16 % 16, n % 16].map fun d => Nat.digitChar d

def escapeChar (c : Char) : List Char :=
  match c with
  | '"' => ['\\', '"']
  | '\\' => ['\\', '\\']
  | '\x08' => ['\\', 'b']
  | '\x0c' => ['\\', 'f']
  | '\n' => ['\\', 'n']
  | '\r' => ['\\', 'r']
  | '\t' => ['\\', 't']
  | c => if c.toNat < 0x20 then '\\' :: 'u' :: unitChars c.toNat else [c]

/-- The characters of a string followed by its closing quote and `rest`. -/
def escape (cs rest : List Char) : List Char :=
  cs.foldr (fun c done => escapeChar c ++ done) ('"' :: rest)

def hexDigit? (c : Char) : Option Nat :=
  if '0' ≤ c ∧ c ≤ '9' then some (c.toNat - '0'.toNat)
  else if 'a' ≤ c ∧ c ≤ 'f' then some (c.toNat - 'a'.toNat + 10)
  else if 'A' ≤ c ∧ c ≤ 'F' then some (c.toNat - 'A'.toNat + 10)
  else none

def unescape? (c : Char) : Option Char :=
  match c with
  | '"' => some '"'
  | '\\' => some '\\'
  | '/' => some '/'
  | 'b' => some '\x08'
  | 'f' => some '\x0c'
  | 'n' => some '\n'
  | 'r' => some '\r'
  | 't' => some '\t'
  | _ => none

/-- Where a scan stands inside a string. A leading surrogate waits for its partner. -/
inductive Scan where
  | plain
  | escape
  | unit (leading : Option Nat) (digits value : Nat)
  | partner (leading : Nat)
  | partnerUnit (leading : Nat)

/-- What one character does to a scan. -/
inductive Step where
  | close
  | skip (next : Scan)
  | emit (c : Char) (next : Scan)

/-- What a complete `\u` unit does. A unit that is half of a pair without the other half is
refused. -/
def closeUnit? (leading : Option Nat) (value : Nat) : Option Step :=
  match leading with
  | none =>
    if 0xD800 ≤ value ∧ value < 0xDC00 then some (.skip (.partner value))
    else if 0xDC00 ≤ value ∧ value < 0xE000 then none
    else some (.emit (.ofNat value) .plain)
  | some high =>
    if 0xDC00 ≤ value ∧ value < 0xE000 then
      some (.emit (.ofNat (0x10000 + (high - 0xD800) * 0x400 + (value - 0xDC00))) .plain)
    else none

def Scan.step? (s : Scan) (c : Char) : Option Step :=
  match s with
  | .plain =>
    if c = '"' then some .close
    else if c = '\\' then some (.skip .escape)
    else if c.toNat < 0x20 then none
    else some (.emit c .plain)
  | .escape =>
    if c = 'u' then some (.skip (.unit none 0 0))
    else (unescape? c).map fun d => .emit d .plain
  | .unit leading digits value =>
    match hexDigit? c with
    | none => none
    | some d =>
      if digits = 3 then closeUnit? leading (value * 16 + d)
      else some (.skip (.unit leading (digits + 1) (value * 16 + d)))
  | .partner leading => if c = '\\' then some (.skip (.partnerUnit leading)) else none
  | .partnerUnit leading => if c = 'u' then some (.skip (.unit (some leading) 0 0)) else none

/-- Reads to the closing quote: the characters before it, after those already `done` in reverse,
and what follows it. -/
def scan : Scan → List Char → List Char → Option (List Char × List Char)
  | _, _, [] => none
  | s, done, c :: cs =>
    match s.step? c with
    | none => none
    | some .close => some (done.reverse, cs)
    | some (.skip next) => scan next done cs
    | some (.emit made next) => scan next (made :: done) cs

/-- The contents of a string after its opening quote, and what follows it. -/
def stringBody (cs : List Char) : Option (List Char × List Char) := scan .plain [] cs

theorem hexDigit?_digitChar {d : Nat} (h : d < 16) : hexDigit? (Nat.digitChar d) = some d := by
  have : ∀ d : Fin 16, hexDigit? (Nat.digitChar d) = some d.val := by decide
  exact this ⟨d, h⟩

private theorem scan_unit_digit (digits value d : Nat) (done rest : List Char) (h : d < 16)
    (hd : digits ≠ 3) :
    scan (.unit none digits value) done (Nat.digitChar d :: rest) =
      scan (.unit none (digits + 1) (value * 16 + d)) done rest := by
  rw [scan]
  simp [Scan.step?, hexDigit?_digitChar h, hd]

private theorem scan_unit_last (value d : Nat) (done rest : List Char) (h : d < 16)
    (hv : value * 16 + d < 0xD800) :
    scan (.unit none 3 value) done (Nat.digitChar d :: rest) =
      scan .plain (.ofNat (value * 16 + d) :: done) rest := by
  rw [scan]
  have h₁ : ¬(0xD800 ≤ value * 16 + d ∧ value * 16 + d < 0xDC00) := by omega
  have h₂ : ¬(0xDC00 ≤ value * 16 + d ∧ value * 16 + d < 0xE000) := by omega
  simp only [Scan.step?, hexDigit?_digitChar h, closeUnit?, h₁, h₂, ite_true, ite_false]

private theorem scan_escapeChar (c : Char) (done rest : List Char) :
    scan .plain done (escapeChar c ++ rest) = scan .plain (c :: done) rest := by
  unfold escapeChar
  split
  all_goals try rfl
  rename_i h₁ h₂ _ _ _ _ _
  by_cases h : c.toNat < 0x20
  · simp only [h, ite_true, unitChars, List.map, List.cons_append, List.nil_append]
    rw [scan, Scan.step?]
    simp only [Char.reduceEq, ite_true, ite_false]
    rw [scan, Scan.step?]
    simp only [ite_true]
    rw [scan_unit_digit _ _ _ _ _ (by omega) (by omega),
      scan_unit_digit _ _ _ _ _ (by omega) (by omega),
      scan_unit_digit _ _ _ _ _ (by omega) (by omega),
      scan_unit_last _ _ _ _ (by omega) (by omega)]
    have : (((0 * 16 + c.toNat / 4096 % 16) * 16 + c.toNat / 256 % 16) * 16 +
        c.toNat / 16 % 16) * 16 + c.toNat % 16 = c.toNat := by omega
    rw [this, Char.ofNat_toNat]
  · have hq : c ≠ '"' := fun hc => h₁ hc
    have hb : c ≠ '\\' := fun hc => h₂ hc
    simp only [h, ite_false, List.cons_append, List.nil_append]
    rw [scan]
    simp [Scan.step?, h, hq, hb]

theorem scan_escape (cs done rest : List Char) :
    scan .plain done (escape cs rest) = some (done.reverse ++ cs, rest) := by
  induction cs generalizing done with
  | nil => simp [escape, scan, Scan.step?]
  | cons c cs ih =>
    have : escape (c :: cs) rest = escapeChar c ++ escape cs rest := rfl
    rw [this, scan_escapeChar, ih]
    simp

/-- What is written reads back. -/
theorem stringBody_escape (cs rest : List Char) :
    stringBody (escape cs rest) = some (cs, rest) := by
  simpa [stringBody] using scan_escape cs [] rest

end TileWorld.Json
