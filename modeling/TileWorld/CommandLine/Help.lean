import TileWorld.CommandLine.Options

/-! # The two columns of a help text -/

namespace TileWorld.CommandLine

structure HelpEntry where
  short : Option Char
  form : String
  about : String
  default : Option String

namespace HelpEntry

def ofSpec (spec : OptionSpec) : HelpEntry := ⟨spec.short, spec.form, spec.about, spec.default⟩

def common : List HelpEntry :=
  [⟨some 'h', "--help", "Print help", none⟩, ⟨some 'V', "--version", "Print version", none⟩]

/-- How the option is given. -/
def head (e : HelpEntry) : String :=
  match e.short with
  | some c => "  -" ++ c.toString ++ ", " ++ e.form
  | none => "      " ++ e.form

def note (e : HelpEntry) : String :=
  match e.default with
  | some value => "[default: " ++ value ++ "]"
  | none => ""

def text (e : HelpEntry) : String :=
  if e.note.isEmpty then e.about else e.about ++ " " ++ e.note

end HelpEntry

def spaces (n : Nat) : String := .ofList (List.replicate n ' ')

/-- The length of the longest form. -/
def longestForm (entries : List HelpEntry) : Nat :=
  (entries.map (·.form.length)).foldl max 0

def screenWidth : Nat := 100

/-- What the first column and the space around it take up. -/
def taken (entries : List HelpEntry) : Nat := longestForm entries + 12

/-- Whether the first column takes more than two fifths of the screen and some text is longer than
what it leaves. -/
def isCrowded (entries : List HelpEntry) : Bool :=
  let taken := taken entries
  taken ≤ screenWidth && 2 * screenWidth < 5 * taken &&
    entries.any fun e => screenWidth - taken < e.about.length + e.note.length

def helpList (entries : List HelpEntry) : List String :=
  if isCrowded entries then entries.flatMap fun e => [e.head, spaces 10 ++ e.text]
  else entries.map fun e => e.head ++ spaces (longestForm entries + 2 - e.form.length) ++ e.text

def usage (program : String) : String := "Usage: " ++ program ++ " [OPTIONS]"

def help (program : String) (about : Option String) (specs : List OptionSpec) : List String :=
  (about.map fun text => [text, ""]).getD [] ++ [usage program, "", "Options:"] ++
    helpList (specs.map HelpEntry.ofSpec ++ HelpEntry.common)

end TileWorld.CommandLine
