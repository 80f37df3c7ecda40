import Declgen.Proofs.Layout.Flush

/-!
# Blocks

A block is a stretch of lines between two braces of one depth. Putting passages together keeps the
blocks that they have, and moving lines deeper moves both braces of a block and the lines between
them by the same amount. So a block keeps its shape, wherever it ends up.
-/

namespace Declgen.Layout

open Text

/-- Among the lines there is a block: one line ends with the opening brace, the lines `inner`
follow, and then a line starts with the closing brace. Both braces stand `depth` levels deep. -/
def HasBlock (depth : Nat) (inner ls : List Line) : Prop :=
  ∃ before opening closing after,
    ls = before ++ ⟨depth, opening ++ "\x7b"⟩ :: (inner ++ ⟨depth, "\x7d" ++ closing⟩ :: after)

/-- Completing lines takes a carriage return from all but the last. -/
theorem complete_append {ls ms : List Line} (hms : ms ≠ []) :
    Passage.complete (ls ++ ms) = ls.map Line.chomp ++ Passage.complete ms := by
  induction ls with
  | nil => rfl
  | cons l ls ih =>
    obtain ⟨k, rest, hrest⟩ := List.exists_cons_of_ne_nil
      (List.append_ne_nil_of_right_ne_nil ls hms)
    rw [List.cons_append, hrest, Passage.complete, ← hrest, ih, List.map_cons, List.cons_append]

namespace HasBlock

variable {depth : Nat} {inner ls : List Line}

/-- Lines between braces are a block. -/
theorem braced (ls : List Line) : HasBlock 0 (ls.map Line.deeper) (Passage.braced ls).lines := by
  refine ⟨[], "", "", [], ?_⟩
  rw [String.empty_append, String.append_empty]
  rfl

/-- A block stays where lines are put in front and behind. -/
theorem within (h : HasBlock depth inner ls) (ms ns : List Line) :
    HasBlock depth inner (ms ++ ls ++ ns) := by
  obtain ⟨before, opening, closing, after, rfl⟩ := h
  exact ⟨ms ++ before, opening, closing, after ++ ns, by simp⟩

/-- A block moves one level deeper with its lines. -/
theorem deeper (h : HasBlock depth inner ls) :
    HasBlock (depth + 1) (inner.map Line.deeper) (ls.map Line.deeper) := by
  obtain ⟨before, opening, closing, after, rfl⟩ := h
  refine ⟨before.map Line.deeper, opening, closing, after.map Line.deeper, ?_⟩
  rw [List.map_append, List.map_cons, List.map_append, List.map_cons]
  rfl

/-- A block that is put between braces itself. -/
theorem in_braces (h : HasBlock depth inner ls) :
    HasBlock (depth + 1) (inner.map Line.deeper) (Passage.braced ls).lines :=
  h.deeper.within [⟨0, "\x7b"⟩] [⟨0, "\x7d"⟩]

/-- Completing lines does not touch braces. -/
theorem complete (h : HasBlock depth inner ls) :
    HasBlock depth (inner.map Line.chomp) (Passage.complete ls) := by
  obtain ⟨before, opening, closing, after, rfl⟩ := h
  have hopen : (Line.mk depth (opening ++ "\x7b")).chomp = ⟨depth, opening ++ "\x7b"⟩ := by
    have hbrace : chomp "\x7b" = "\x7b" := by decide
    rw [Line.chomp, chomp_append opening (by decide), hbrace]
  have hchomp : ∃ closing', chomp ("\x7d" ++ closing) = "\x7d" ++ closing' := by
    by_cases hempty : closing = ""
    · subst hempty
      exact ⟨"", by decide⟩
    · exact ⟨chomp closing, chomp_append _ hempty⟩
  have hclose : ∃ closing' after', Passage.complete (⟨depth, "\x7d" ++ closing⟩ :: after) =
      ⟨depth, "\x7d" ++ closing'⟩ :: after' := by
    cases after with
    | nil => exact ⟨closing, [], by simp [Passage.complete]⟩
    | cons l after =>
      obtain ⟨closing', hchomp⟩ := hchomp
      exact ⟨closing', Passage.complete (l :: after), by
        rw [Passage.complete, Line.chomp, hchomp]⟩
  obtain ⟨closing', after', hclose⟩ := hclose
  refine ⟨before.map Line.chomp, opening, closing', after', ?_⟩
  rw [complete_append (List.cons_ne_nil _ _), ← List.cons_append,
    complete_append (List.cons_ne_nil _ _), hclose, List.map_cons, hopen, List.cons_append]

end HasBlock

namespace Passage

variable {depth : Nat} {inner : List Line} {p q : Passage}

/-- What follows a passage does not touch its blocks. -/
theorem hasBlock_append_left (h : HasBlock depth inner p.lines) (hq : q.Flush) :
    HasBlock depth inner (p ++ q).lines := by
  obtain ⟨before, opening, closing, after, hlines⟩ := h
  obtain ⟨body, ms, hms⟩ := hq.first
  have hclose : ∃ closing' after', joinLines (⟨depth, "\x7d" ++ closing⟩ :: after) q.lines =
      ⟨depth, "\x7d" ++ closing'⟩ :: after' := by
    cases after with
    | nil => exact ⟨closing ++ body, ms, by rw [hms, ← String.append_assoc]; rfl⟩
    | cons l after => exact ⟨closing, joinLines (l :: after) q.lines, rfl⟩
  obtain ⟨closing', after', hclose⟩ := hclose
  refine ⟨before, opening, closing', after', ?_⟩
  change joinLines p.lines q.lines = _
  rw [hlines, joinLines_append (List.cons_ne_nil _ _), ← List.cons_append,
    joinLines_append (List.cons_ne_nil _ _), hclose, List.cons_append]

/-- A block that starts on the first line is at the outermost depth, and so is the line that
continues it. -/
theorem hasBlock_append_right (hp : p.Flush) (hq : q.Flush) (h : HasBlock depth inner q.lines) :
    HasBlock depth inner (p ++ q).lines := by
  obtain ⟨before, opening, closing, after, hlines⟩ := h
  obtain ⟨ls, a, hls⟩ := hp.last
  obtain ⟨b, ms, hms⟩ := hq.first
  have happend := lines_append hls hms
  rw [hlines] at hms
  cases before with
  | nil =>
    rw [List.nil_append, List.cons.injEq, Line.mk.injEq] at hms
    obtain ⟨⟨rfl, rfl⟩, rfl⟩ := hms
    exact ⟨ls, a ++ opening, closing, after, by rw [happend, String.append_assoc]⟩
  | cons l before =>
    rw [List.cons_append, List.cons.injEq] at hms
    obtain ⟨-, rfl⟩ := hms
    exact ⟨ls ++ ⟨0, a ++ b⟩ :: before, opening, closing, after, by
      rw [happend, List.append_assoc, List.cons_append]⟩

/-- A block in one of several passages that are joined is one in the whole. -/
theorem hasBlock_join {separator : String} {ps : List Passage} (hps : ∀ p ∈ ps, p.Flush)
    (hp : p ∈ ps) (h : HasBlock depth inner p.lines) :
    HasBlock depth inner (join separator ps).lines := by
  induction ps with
  | nil => cases hp
  | cons next ps ih =>
    rw [List.forall_mem_cons] at hps
    cases ps with
    | nil => rwa [← List.mem_singleton.mp hp]
    | cons q ps =>
      have hseparator := flush_ofString separator
      have hrest := flush_join separator hps.2
      rcases List.mem_cons.mp hp with rfl | hp
      · exact hasBlock_append_left (hasBlock_append_left h hseparator) hrest
      · exact hasBlock_append_right (hps.1.append hseparator) hrest (ih hps.2 hp)

end Passage

end Declgen.Layout
