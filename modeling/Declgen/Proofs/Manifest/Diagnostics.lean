import Declgen.Manifest.Check
import Declgen.Proofs.Manifest.Keys
import Declgen.Proofs.Manifest.Values

/-!
# What diagnostics point at

A span that is found in a source lies between whole characters, and its bytes are those of the text
that was looked for: the first place of a key, or a value where it is repeated. So what a faulty
manifest is reported with is the key of the faulty setting or the root that is listed twice.
-/

namespace Declgen.Manifest

open Text

/-- A span lies in a source between the bounds of characters, and its bytes are those of a text. -/
structure Span.Shows (span : Span) (source text : String) : Prop where
  /-- A character starts there, or the source ends. -/
  isValid_start : String.Pos.Raw.IsValid source ⟨span.start⟩
  /-- Another one starts behind it, or the source ends. -/
  isValid_end : String.Pos.Raw.IsValid source ⟨span.start + span.length⟩
  /-- The slice of the source. -/
  extract_eq : source.toByteArray.extract span.start (span.start + span.length) = text.toByteArray

variable {source key value : String} {start : Nat}

/-- The middle one of three texts. -/
theorem Span.shows_append (before text after : String) :
    Span.Shows ⟨before.utf8ByteSize, text.utf8ByteSize⟩ (before ++ text ++ after) text where
  isValid_start := String.Pos.Raw.isValid_iff_exists_append.mpr
    ⟨before, text ++ after, String.append_assoc, rfl⟩
  isValid_end := String.Pos.Raw.isValid_iff_exists_append.mpr
    ⟨before ++ text, after, rfl, String.Pos.Raw.ext String.utf8ByteSize_append.symm⟩
  extract_eq := by
    rw [String.append_assoc, extract_toByteArray_append, extract_toByteArray_zero]

/-- The bytes where a key stands are those of the key. -/
theorem KeyAt.shows (h : KeyAt source key start) :
    Span.Shows ⟨start, key.utf8ByteSize⟩ source key := by
  obtain ⟨before, after, rfl, rfl, -⟩ := h
  exact Span.shows_append before key after

/-- What follows a quoted value starts with a whole character. -/
theorem QuotedAt.shows (h : QuotedAt source value start) :
    Span.Shows ⟨start, (quoted value).utf8ByteSize⟩ source (quoted value) := by
  obtain ⟨before, after, rfl, rfl⟩ := h.exists_append
  exact Span.shows_append before (quoted value) after

/-- The value stands behind the first quote. -/
theorem QuotedAt.shows_value (h : QuotedAt source value start) :
    Span.Shows ⟨start + 1, value.utf8ByteSize⟩ source value := by
  obtain ⟨before, after, rfl, rfl⟩ := h.exists_append
  have hinner := Span.shows_append (before ++ "\"") value ("\"" ++ after)
  rw [String.utf8ByteSize_append] at hinner
  simp only [quoted, String.append_assoc] at hinner ⊢
  exact hinner

/-- The place of a key shows the key. -/
theorem shows_of_keySpan {span : Span} (hkey : IsKey key.toList)
    (h : keySpan source key = some span) :
    span.Shows source key ∧ IsLeast {i | KeyAt source key i} span.start := by
  rcases keySpan_cases source hkey with ⟨start, hleast, hspan⟩ | ⟨-, hspan⟩
  · obtain rfl := Option.some.inj (hspan.symm.trans h)
    exact ⟨hleast.1.shows, hleast⟩
  · cases hspan.symm.trans h

/-- The place of a value shows the value, between the quotes of one of its occurrences. -/
theorem shows_of_valueSpan {span : Span} (h : valueSpan source value = some span) :
    span.Shows source value ∧ ∃ start, ShownAt source value start ∧ span.start = start + 1 := by
  rcases valueSpan_cases source value with ⟨start, hshown, hspan⟩ | ⟨-, hspan⟩
  · obtain rfl := Option.some.inj (hspan.symm.trans h)
    exact ⟨hshown.quotedAt.shows_value, start, hshown, rfl⟩
  · cases hspan.symm.trans h

/-- A key is found in a source exactly if it stands somewhere first on a line and before an equals
sign. The span that is found lies between whole characters, its bytes are those of the key, and it
is the first such place. A value is found exactly if its bytes stand somewhere between double
quotes. Each occurrence lies between whole characters, and the span that is found is the value
between the quotes of the second one, not overlapping the first, or of the first one if there is no
second. -/
theorem spans_show_keys_and_values (source : String) :
    (∀ key, IsKey key.toList →
      (keySpan source key = none ↔ ∀ i, ¬ KeyAt source key i) ∧
      ∀ span, keySpan source key = some span →
        span.Shows source key ∧ IsLeast {i | KeyAt source key i} span.start) ∧
    ∀ value,
      (valueSpan source value = none ↔ ∀ i, ¬ QuotedAt source value i) ∧
      (∀ i, QuotedAt source value i →
        Span.Shows ⟨i, (quoted value).utf8ByteSize⟩ source (quoted value)) ∧
      ∀ span, valueSpan source value = some span →
        span.Shows source value ∧
          ∃ start, ShownAt source value start ∧ span.start = start + 1 := by
  refine ⟨fun key hkey => ⟨?_, fun span => shows_of_keySpan hkey⟩,
    fun value => ⟨?_, fun i => QuotedAt.shows, fun span => shows_of_valueSpan⟩⟩
  · rcases keySpan_cases source hkey with ⟨start, hleast, hspan⟩ | ⟨hnone, hspan⟩
    · exact ⟨fun h => by simp [hspan] at h, fun h => absurd hleast.1 (h start)⟩
    · exact ⟨fun _ => hnone, fun _ => hspan⟩
  · rcases valueSpan_cases source value with ⟨start, hshown, hspan⟩ | ⟨hnone, hspan⟩
    · exact ⟨fun h => by simp [hspan] at h, fun h => absurd hshown.quotedAt (h start)⟩
    · exact ⟨fun _ => hnone, fun _ => hspan⟩

/-- The key stands behind a line that ends with two characters and a blank of three bytes, and the
value is listed twice. -/
theorem spans_show_keys_and_values_crlf :
    IsKey "k".toList ∧
      (Span.mk 9 1).Shows "é=1\r\n\u3000k = [\"é\",\"é\"]" "k" ∧
      IsLeast {i | KeyAt "é=1\r\n\u3000k = [\"é\",\"é\"]" "k" i} 9 ∧
      (Span.mk 20 2).Shows "é=1\r\n\u3000k = [\"é\",\"é\"]" "é" ∧
      ShownAt "é=1\r\n\u3000k = [\"é\",\"é\"]" "é" 19 := by
  have hkey : IsKey "k".toList := by decide +kernel
  obtain ⟨hkeys, hvalues⟩ := spans_show_keys_and_values "é=1\r\n\u3000k = [\"é\",\"é\"]"
  obtain ⟨hkeyShows, hfirst⟩ := (hkeys "k" hkey).2 ⟨9, 1⟩ (by decide +kernel)
  obtain ⟨hvalueShows, start, hshown, hstart⟩ := (hvalues "é").2.2 ⟨20, 2⟩ (by decide +kernel)
  obtain rfl : start = 19 := Nat.succ_injective hstart.symm
  exact ⟨hkey, hkeyShows, hfirst, hvalueShows, hshown⟩

/-! ### Reports of manifests -/

/-- The texts that a fault can be shown at. -/
def Fault.subjects : Fault → List String
  | emptyModel => ["model"]
  | emptyOutput => ["output"]
  | emptyRoot => ["roots"]
  | repeatedRoot name => [name, "roots"]
  | missingStem => ["layout"]
  | badStem => ["file"]

/-- A fault is shown at the key of the setting or at the root. -/
theorem Fault.exists_shows_of_span? {fault : Fault} {span : Span}
    (h : fault.span? source = some span) : ∃ text ∈ fault.subjects, span.Shows source text := by
  have hkeys : ∀ key ∈ ["model", "output", "roots", "layout", "file"], IsKey key.toList := by
    decide +kernel
  have hshows {key : String} (hmem : key ∈ ["model", "output", "roots", "layout", "file"])
      (h : keySpan source key = some span) : span.Shows source key :=
    (shows_of_keySpan (hkeys key hmem) h).1
  cases fault with
  | repeatedRoot name =>
    rcases Option.or_eq_some_iff.mp h with h | ⟨-, h⟩
    · exact ⟨name, by simp [subjects], (shows_of_valueSpan h).1⟩
    · exact ⟨"roots", by simp [subjects], hshows (by simp) h⟩
  | _ => exact ⟨_, List.mem_singleton_self _, hshows (by simp) h⟩

/-- What a manifest is reported with is the text that the fault is about. -/
theorem exists_shows_of_parse {file name : String} {span : Span} {fault : Fault}
    (h : parse source file = .error (.invalid name (some span) fault)) :
    ∃ text ∈ fault.subjects, span.Shows source text := by
  rw [parse] at h
  split at h
  · cases h
  · cases h
  · split at h
    · injection h with h
      injection h with _ hspan hfault
      exact Fault.exists_shows_of_span? (hfault ▸ hspan)
    · cases h

end Declgen.Manifest
