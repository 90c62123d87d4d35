import TileWorld.Json.Basic
import TileWorld.Json.Escape
import TileWorld.Number.Layout

/-! # Written JSON -/

namespace TileWorld.Json

def stringOnto (s : String) (rest : List Char) : List Char := '"' :: escape s.toList rest

def realOnto (x : Float) (rest : List Char) : List Char :=
  (Number.doubleChars? x).getD ['n', 'u', 'l', 'l'] ++ rest

/-- A single-precision number with the digits that suffice for its own precision. -/
def singleOnto (x : Float32) (rest : List Char) : List Char :=
  (Number.singleChars? x).getD ['n', 'u', 'l', 'l'] ++ rest

mutual

def onto : Json → List Char → List Char
  | .null, rest => 'n' :: 'u' :: 'l' :: 'l' :: rest
  | .bool true, rest => 't' :: 'r' :: 'u' :: 'e' :: rest
  | .bool false, rest => 'f' :: 'a' :: 'l' :: 's' :: 'e' :: rest
  | .int n, rest => Number.intChars n ++ rest
  | .real x, rest => realOnto x rest
  | .string s, rest => stringOnto s rest
  | .array [], rest => '[' :: ']' :: rest
  | .array (item :: items), rest => '[' :: item.onto (itemsOnto items rest)
  | .object [], rest => '\x7b' :: '\x7d' :: rest
  | .object ((name, value) :: fields), rest =>
    '\x7b' :: stringOnto name (':' :: value.onto (fieldsOnto fields rest))

def itemsOnto : List Json → List Char → List Char
  | [], rest => ']' :: rest
  | item :: items, rest => ',' :: item.onto (itemsOnto items rest)

def fieldsOnto : List (String × Json) → List Char → List Char
  | [], rest => '\x7d' :: rest
  | (name, value) :: fields, rest =>
    ',' :: stringOnto name (':' :: value.onto (fieldsOnto fields rest))

end

/-- An array of texts that are already written. -/
def arrayOnto : List (List Char → List Char) → List Char → List Char
  | [], rest => '[' :: ']' :: rest
  | item :: items, rest =>
    '[' :: item (items.foldr (fun item done => ',' :: item done) (']' :: rest))

def fieldOnto (field : String × (List Char → List Char)) (rest : List Char) : List Char :=
  stringOnto field.1 (':' :: field.2 rest)

/-- A record whose fields keep the given order. -/
def recordOnto : List (String × (List Char → List Char)) → List Char → List Char
  | [], rest => '\x7b' :: '\x7d' :: rest
  | field :: fields, rest =>
    '\x7b' :: fieldOnto field
      (fields.foldr (fun field done => ',' :: fieldOnto field done) ('\x7d' :: rest))

def render (j : Json) : String := .ofList (j.onto [])

end TileWorld.Json
