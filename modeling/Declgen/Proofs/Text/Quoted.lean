import Declgen.Text.Quoted
import Mathlib.Data.List.Basic

/-!
# Reading quoted text

A quoted text ends at the first quote after no backslash that escapes it, and undoing the escapes
gives the text back. No line break stands between the quotes.
-/

namespace Declgen.Text

/-- The text that stands between two quotes, with the escapes undone. -/
def unescape : List Char → Option (List Char)
  | [] => some []
  | '\\' :: '"' :: cs => (unescape cs).map ('"' :: ·)
  | '\\' :: '\\' :: cs => (unescape cs).map ('\\' :: ·)
  | '\\' :: 'n' :: cs => (unescape cs).map ('\n' :: ·)
  | '\\' :: 'r' :: cs => (unescape cs).map ('\r' :: ·)
  | '\\' :: 't' :: cs => (unescape cs).map ('\t' :: ·)
  | '\\' :: _ => none
  | c :: cs => (unescape cs).map (c :: ·)

/-- Cuts a text at the first quote that no backslash escapes. -/
def cutQuote : List Char → Option (List Char × List Char)
  | [] => none
  | '"' :: cs => some ([], cs)
  | '\\' :: c :: cs => (cutQuote cs).map fun parts => ('\\' :: c :: parts.1, parts.2)
  | c :: cs => (cutQuote cs).map fun parts => (c :: parts.1, parts.2)

/-- What `escape` writes for a character: a backslash and a letter for five of them. -/
theorem escape_cases (c : Char) :
    (∃ e, escape c = ['\\', e] ∧ e ≠ '\n' ∧ e ≠ '\r' ∧
        ∀ cs, unescape ('\\' :: e :: cs) = (unescape cs).map (c :: ·)) ∨
      (escape c = [c] ∧ c ≠ '"' ∧ c ≠ '\\' ∧ c ≠ '\n' ∧ c ≠ '\r') := by
  unfold escape
  split
  · exact .inl ⟨'"', rfl, by decide, by decide, fun _ => rfl⟩
  · exact .inl ⟨'\\', rfl, by decide, by decide, fun _ => rfl⟩
  · exact .inl ⟨'n', rfl, by decide, by decide, fun _ => rfl⟩
  · exact .inl ⟨'r', rfl, by decide, by decide, fun _ => rfl⟩
  · exact .inl ⟨'t', rfl, by decide, by decide, fun _ => rfl⟩
  · rename_i hquote hbackslash hfeed hreturn _
    exact .inr ⟨rfl, hquote, hbackslash, hfeed, hreturn⟩

/-- Undoing the escapes of a text gives the text back. -/
theorem unescape_escape (cs : List Char) : unescape (cs.flatMap escape) = some cs := by
  induction cs with
  | nil => rfl
  | cons c cs ih =>
    rw [List.flatMap_cons]
    rcases escape_cases c with ⟨e, he, -, -, hunescape⟩ | ⟨he, -, hbackslash, -, -⟩
    · rw [he, List.cons_append, List.cons_append, List.nil_append, hunescape, ih, Option.map_some]
    · rw [he, List.singleton_append, unescape, ih, Option.map_some]
      all_goals simp [hbackslash]

/-- A quoted text ends at its closing quote, whatever it is and whatever follows. -/
theorem cutQuote_escape (cs rest : List Char) :
    cutQuote (cs.flatMap escape ++ '"' :: rest) = some (cs.flatMap escape, rest) := by
  induction cs with
  | nil => rfl
  | cons c cs ih =>
    rw [List.flatMap_cons, List.append_assoc]
    rcases escape_cases c with ⟨e, he, -, -, -⟩ | ⟨he, hquote, hbackslash, -, -⟩
    · rw [he, List.cons_append, List.cons_append, List.nil_append, cutQuote, ih, Option.map_some]
      rfl
    · rw [he, List.singleton_append, cutQuote, ih, Option.map_some]
      · rfl
      all_goals simp [hquote, hbackslash]

/-- Escaped text has no line breaks. -/
theorem notMem_escape (cs : List Char) :
    '\n' ∉ cs.flatMap escape ∧ '\r' ∉ cs.flatMap escape := by
  have hchar (c : Char) : '\n' ∉ escape c ∧ '\r' ∉ escape c := by
    rcases escape_cases c with ⟨e, he, hfeed, hreturn, -⟩ | ⟨he, -, -, hfeed, hreturn⟩
    · simp [he, hfeed.symm, hreturn.symm]
    · simp [he, hfeed.symm, hreturn.symm]
  simp only [List.mem_flatMap, not_exists, not_and]
  exact ⟨fun c _ => (hchar c).1, fun c _ => (hchar c).2⟩

/-- A quoted text is its characters, escaped, between double quotes. -/
theorem toList_quote (s : String) :
    (quote s).toList = '"' :: (s.toList.flatMap escape ++ ['"']) := by
  rw [quote, String.toList_ofList, List.cons_append]

end Declgen.Text
