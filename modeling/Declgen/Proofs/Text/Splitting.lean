import Declgen.Text.Split
import Mathlib.Data.List.Basic

/-!
# Splitting and joining texts

Splitting a text at a separator and joining the parts with it again gives the text back, and so
does the other order if the separator occurs in no part. So a text that is joined from such parts
is told by them. Its lines are the stretches between line feeds, without the carriage returns
before these and without the last one if it is empty.
-/

namespace Declgen.Text

/-- Cutting a text apart is the operation of the standard library. -/
theorem splitWhere_eq_splitOnP (p : Char → Bool) (cs : List Char) :
    splitWhere p cs = cs.splitOnP p := by
  induction cs with
  | nil => rfl
  | cons c cs ih =>
    rw [List.splitOnP_cons_eq_if_modifyHead, ← ih, splitWhere]
    cases hp : p c with
    | true => rfl
    | false =>
      cases hparts : splitWhere p cs with
      | nil => exact absurd hparts (splitWhere_ne_nil p cs)
      | cons part parts => rfl

/-- The stretches between the characters with `p` are made of the other characters. -/
theorem mem_splitWhere {p : Char → Bool} {cs part : List Char} (h : part ∈ splitWhere p cs) :
    ∀ c ∈ part, p c = false ∧ c ∈ cs := by
  induction cs generalizing part with
  | nil =>
    rw [List.mem_singleton.mp h]
    simp
  | cons c cs ih =>
    have hlater {part : List Char} (h : part ∈ splitWhere p cs) :
        ∀ ch ∈ part, p ch = false ∧ ch ∈ c :: cs :=
      fun ch hch => (ih h ch hch).imp_right (List.mem_cons_of_mem c)
    obtain ⟨first, rest, hparts⟩ := List.exists_cons_of_ne_nil (splitWhere_ne_nil p cs)
    rw [splitWhere, hparts] at h
    rw [hparts] at hlater
    cases hp : p c with
    | true =>
      rw [hp] at h
      rcases List.mem_cons.mp h with rfl | h
      · simp
      · exact hlater h
    | false =>
      rw [hp] at h
      rcases List.mem_cons.mp h with rfl | h
      · exact List.forall_mem_cons.mpr ⟨⟨hp, List.mem_cons_self⟩, hlater List.mem_cons_self⟩
      · exact hlater (List.mem_cons_of_mem _ h)

variable {separator : Char}

/-- Splitting a string is splitting the list of its characters. -/
theorem toList_splitAt (s : String) :
    (splitAt separator s).map String.toList = s.toList.splitOn separator := by
  rw [splitAt, splitWhere_eq_splitOnP, List.map_map]
  exact (List.map_congr_left fun cs _ => String.toList_ofList).trans (List.map_id _)

/-- Splitting always gives a part. -/
theorem splitAt_ne_nil (s : String) : splitAt separator s ≠ [] := by
  intro h
  have hlist : _ = s.toList.splitOn separator := toList_splitAt s
  rw [h, List.map_nil] at hlist
  exact List.splitOn_ne_nil separator s.toList hlist.symm

/-- Joining the parts of a text gives it back. -/
theorem intercalate_splitAt (s : String) :
    (String.singleton separator).intercalate (splitAt separator s) = s := by
  rw [← String.toList_inj, String.toList_intercalate, toList_splitAt, String.toList_singleton,
    List.intercalate_splitOn]

/-- Splitting a text that is joined from parts gives them back. -/
theorem splitAt_intercalate {parts : List String} (hne : parts ≠ [])
    (hparts : ∀ part ∈ parts, separator ∉ part.toList) :
    splitAt separator ((String.singleton separator).intercalate parts) = parts := by
  refine List.map_injective_iff.mpr (fun _ _ => String.toList_inj.mp) ?_
  rw [toList_splitAt, String.toList_intercalate, String.toList_singleton]
  refine List.splitOn_intercalate separator (fun cs hcs => ?_) (by simpa using hne)
  obtain ⟨part, hpart, rfl⟩ := List.mem_map.mp hcs
  exact hparts part hpart

/-- A text without the separator is its only part. -/
theorem splitAt_of_notMem {s : String} (h : separator ∉ s.toList) : splitAt separator s = [s] := by
  have hparts := splitAt_intercalate (List.cons_ne_nil s []) (List.forall_mem_singleton.mpr h)
  rwa [String.intercalate_singleton] at hparts

/-- A separator between two texts separates their parts. -/
theorem splitAt_append (s t : String) :
    splitAt separator (s ++ String.singleton separator ++ t) =
      splitAt separator s ++ splitAt separator t := by
  refine List.map_injective_iff.mpr (fun _ _ => String.toList_inj.mp) ?_
  rw [List.map_append, toList_splitAt, toList_splitAt, toList_splitAt, String.toList_append,
    String.toList_append, String.toList_singleton, List.append_assoc, List.singleton_append,
    List.splitOn_append_cons_self]

/-- A part of a text is made of characters of the text other than the separator. -/
theorem mem_splitAt {s part : String} (h : part ∈ splitAt separator s) :
    separator ∉ part.toList ∧ part.toList ⊆ s.toList := by
  obtain ⟨cs, hcs, rfl⟩ := List.mem_map.mp h
  rw [String.toList_ofList]
  refine ⟨fun hmem => ?_, fun c hc => (mem_splitWhere hcs c hc).2⟩
  have hne := (mem_splitWhere hcs separator hmem).1
  simp at hne

/-- Texts with a separator behind each but the last. -/
theorem intercalate_concat (separator : String) (parts : List String) (last : String) :
    separator.intercalate (parts ++ [last]) =
      String.join (parts.map (· ++ separator)) ++ last := by
  induction parts with
  | nil => simp
  | cons part parts ih =>
    rw [List.cons_append, String.intercalate_cons_of_ne_nil (by simp), ih, List.map_cons,
      String.join_cons]
    simp only [String.append_assoc]

/-! ### Lines -/

/-- Only the last part of a text can lose a carriage return. -/
theorem chomp_append (s : String) {t : String} (ht : t ≠ "") : chomp (s ++ t) = s ++ chomp t := by
  have hne : t.toList ≠ [] := by simpa using ht
  have hlast : (s ++ t).toList.getLast? = t.toList.getLast? := by
    rw [String.toList_append, List.getLast?_append_of_ne_nil _ hne]
  unfold chomp
  rw [hlast]
  split
  · rw [← String.toList_inj, String.toList_ofList, String.toList_append, String.toList_append,
      String.toList_ofList, List.dropLast_append_of_ne_nil hne]
  · rfl

/-- A line without carriage return stays as it is. -/
theorem chomp_of_notMem {s : String} (h : '\r' ∉ s.toList) : chomp s = s :=
  if_neg fun hlast => h (List.mem_of_getLast? hlast)

/-- The lines of a text up to the first line feed and behind it. -/
theorem linesFrom_append {cs : List Char} (h : '\n' ∉ cs) (current rest : List Char) :
    linesFrom current (cs ++ '\n' :: rest) =
      chomp (String.ofList (current.reverse ++ cs)) :: linesFrom [] rest := by
  induction cs generalizing current with
  | nil => rw [List.nil_append, linesFrom, if_pos rfl, List.append_nil]
  | cons c cs ih =>
    rw [List.mem_cons, not_or] at h
    rw [List.cons_append, linesFrom, if_neg (Ne.symm h.1), ih h.2, List.reverse_cons,
      List.append_assoc, List.singleton_append]

/-- Without line feed there is one line, unless nothing has been read. -/
theorem linesFrom_of_notMem {cs : List Char} (h : '\n' ∉ cs) (current : List Char) :
    linesFrom current cs =
      if (current.reverse ++ cs).isEmpty then [] else [String.ofList (current.reverse ++ cs)] := by
  induction cs generalizing current with
  | nil => simp [linesFrom]
  | cons c cs ih =>
    rw [List.mem_cons, not_or] at h
    rw [linesFrom, if_neg (Ne.symm h.1), ih h.2, List.reverse_cons, List.append_assoc,
      List.singleton_append]

/-- The first line of a text comes first, without its carriage return. -/
theorem lines_append {s : String} (h : '\n' ∉ s.toList) (t : String) :
    lines (s ++ "\n" ++ t) = chomp s :: lines t := by
  have hchars : (s ++ "\n" ++ t).toList = s.toList ++ '\n' :: t.toList := by simp
  rw [lines, hchars, linesFrom_append h, List.reverse_nil, List.nil_append, String.ofList_toList]
  rfl

/-- A text without line feed is one line, unless it is empty. -/
theorem lines_of_notMem {s : String} (h : '\n' ∉ s.toList) :
    lines s = if s.isEmpty then [] else [s] := by
  rw [lines, linesFrom_of_notMem h, List.reverse_nil, List.nil_append, String.ofList_toList]
  simp

/-- Texts with a line feed behind each. -/
theorem lines_join {parts : List String} (h : ∀ part ∈ parts, '\n' ∉ part.toList) :
    lines (String.join (parts.map (· ++ "\n"))) = parts.map chomp := by
  induction parts with
  | nil => rfl
  | cons part parts ih =>
    rw [List.forall_mem_cons] at h
    rw [List.map_cons, String.join_cons, lines_append h.1, ih h.2, List.map_cons]

/-- There is no line feed within a line. -/
theorem notMem_of_mem_lines {s line : String} (h : line ∈ lines s) : '\n' ∉ line.toList := by
  have hchomp {s : String} (hs : '\n' ∉ s.toList) : '\n' ∉ (chomp s).toList := by
    unfold chomp
    split
    · rw [String.toList_ofList]
      exact fun hmem => hs (List.dropLast_subset _ hmem)
    · exact hs
  have hfrom (current cs : List Char) (hcurrent : '\n' ∉ current)
      (h : line ∈ linesFrom current cs) : '\n' ∉ line.toList := by
    induction cs generalizing current with
    | nil =>
      rw [linesFrom] at h
      split at h
      · cases h
      · rw [List.mem_singleton.mp h, String.toList_ofList, List.mem_reverse]
        exact hcurrent
    | cons c cs ih =>
      rw [linesFrom] at h
      split at h
      · rcases List.mem_cons.mp h with rfl | h
        · apply hchomp
          rw [String.toList_ofList, List.mem_reverse]
          exact hcurrent
        · exact ih [] List.not_mem_nil h
      · rename_i hc
        exact ih (c :: current) (by simp [hcurrent, Ne.symm hc]) h
  exact hfrom [] s.toList List.not_mem_nil h

end Declgen.Text
