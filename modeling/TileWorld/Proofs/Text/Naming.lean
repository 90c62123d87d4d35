import Mathlib.Data.String.Basic

/-! Names made of words and numerals with hyphens in between can be told apart into their parts. -/

namespace TileWorld

theorem head?_append {start : String} {c : Char} (h : start.toList.head? = some c) (rest : String) :
    (start ++ rest).toList.head? = some c := by
  rw [String.toList_append, List.head?_append, h, Option.some_or]

theorem hyphen_not_mem_toString (n : Nat) : '-' ∉ (toString n).toList := by
  intro h
  rw [Nat.toString_eq_repr, Nat.toList_repr] at h
  exact absurd (Nat.isDigit_of_mem_toDigits (by decide) (by decide) h) (by decide)

theorem toString_inj {m n : Nat} (h : toString m = toString n) : m = n := by
  have hdigits := congrArg (fun s : String => Nat.ofDigitChars 10 s.toList 0) h
  simpa [Nat.toString_eq_ofList_toDigits] using hdigits

/-- Behind a known start a word is read off up to the only hyphen that is left. -/
theorem hyphenated_inj {start word rest word' rest' : String} (hword : '-' ∉ word.toList)
    (hrest : '-' ∉ rest.toList)
    (h : start ++ word ++ "-" ++ rest = start ++ word' ++ "-" ++ rest') :
    word = word' ∧ rest = rest' := by
  have hlist : ∀ word rest : String, (start ++ word ++ "-" ++ rest).toList =
      start.toList ++ (word.toList ++ '-' :: rest.toList) := fun word rest => by
    simp [String.toList_append]
  have h := congrArg String.toList h
  rw [hlist, hlist, List.append_right_inj, List.append_cons_inj_of_notMem hword hrest] at h
  exact ⟨String.toList_inj.mp h.1, String.toList_inj.mp h.2.2⟩

end TileWorld
