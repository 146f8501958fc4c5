import VoyageLog.Proofs.Recording.Csv
import VoyageLog.Proofs.Text.Lines
import VoyageLog.Recording.Layout

namespace VoyageLog

open Csv

theorem Text.containsPart_iff {part text : Text} : containsPart part text = true ↔ part <:+: text := by
  induction text with
  | nil => simp [containsPart]
  | cons first rest ih =>
    rw [containsPart, Bool.or_eq_true, List.isPrefixOf_iff_prefix, ih, List.infix_cons_iff]

-- Characters of a heading: letters of any script and underscores are among them.
def IsHeadingChar (c : Char) : Prop :=
  Text.isBlank c = false ∧ c ∉ [',', '"', '#', '$', '!', '\uFEFF']

instance (c : Char) : Decidable (IsHeadingChar c) := inferInstanceAs (Decidable (_ ∧ _))

def IsHeading (heading : Text) : Prop := ∀ c ∈ heading, IsHeadingChar c

instance (heading : Text) : Decidable (IsHeading heading) := List.decidableBAll _ heading

def Names (part : String) (heading : Text) : Prop := part.toList <:+: heading.map Char.toLower

instance (part : String) (heading : Text) : Decidable (Names part heading) :=
  inferInstanceAs (Decidable (_ <:+: _))

-- One heading names the timestamp, and one of the others the message.
structure Columns.Head (columns : Columns) (headings : List Text) : Prop where
  plain : ∀ heading ∈ headings, IsHeading heading
  timestamp_lt : columns.timestamp < headings.length
  message_lt : columns.message < headings.length
  apart : columns.timestamp ≠ columns.message
  timestamp : ∀ index (h : index < headings.length),
    Names "timestamp" headings[index] ↔ index = columns.timestamp
  message : ∀ index (h : index < headings.length), index ≠ columns.timestamp →
    (Names "message" headings[index] ↔ index = columns.message)

-- Line ends are blanks.
theorem endsRow_of_not_blank {c : Char} (h : Text.isBlank c = false) : endsRow c = false := by
  rw [endsRow, Bool.or_eq_false_iff, decide_eq_false_iff_not, decide_eq_false_iff_not]
  constructor <;> rintro rfl <;> cases h

namespace Columns

section Noting

variable {columns : Columns} {headings : List Text}

theorem trim_of_heading {heading : Text} (h : IsHeading heading) : Text.trim heading = heading :=
  Text.dropBothWhile_of_ends (fun c hc => (h c (List.mem_of_mem_head? hc)).1)
    fun c hc => (h c (List.mem_of_mem_getLast? hc)).1

theorem note_eq {heading : Text} (found : Found) (index : Nat) (h : IsHeading heading) :
    note found heading index =
      if Names "timestamp" heading then { found with timestamp := some index }
      else if Names "message" heading then { found with message := some index }
      else found := by
  simp only [note, trim_of_heading h, Text.containsPart_iff]
  rfl

-- From some heading on, each of the two is found if it is still to come.
theorem noteAll_eq (found : Found) (start : Nat) (hheadings : ∀ heading ∈ headings, IsHeading heading)
    (happart : columns.timestamp ≠ columns.message)
    (htimestamp : ∀ index (h : index < headings.length),
      Names "timestamp" headings[index] ↔ start + index = columns.timestamp)
    (hmessage : ∀ index (h : index < headings.length), start + index ≠ columns.timestamp →
      (Names "message" headings[index] ↔ start + index = columns.message)) :
    noteAll found start headings =
      ⟨if start ≤ columns.timestamp ∧ columns.timestamp < start + headings.length then some columns.timestamp
        else found.timestamp,
       if start ≤ columns.message ∧ columns.message < start + headings.length then some columns.message
        else found.message⟩ := by
  induction headings generalizing found start with
  | nil =>
    rw [noteAll, List.length_nil, if_neg (by omega), if_neg (by omega)]
  | cons heading rest ih =>
    have hnote := note_eq found start (hheadings heading (by simp))
    have hshift : ∀ index, start + 1 + index = start + (index + 1) := by omega
    have hrest := ih (note found heading start) (start + 1) (fun other hother => hheadings other (by simp [hother]))
      (fun index h => hshift index ▸ htimestamp (index + 1) (Nat.succ_lt_succ h))
      (fun index h hne => hshift index ▸ hmessage (index + 1) (Nat.succ_lt_succ h) (hshift index ▸ hne))
    have hfirst : Names "timestamp" heading ↔ start = columns.timestamp := htimestamp 0 (by simp)
    have hsecond : start ≠ columns.timestamp → (Names "message" heading ↔ start = columns.message) :=
      hmessage 0 (by simp)
    have hlater : ∀ column, column ≠ start → ((start + 1 ≤ column ∧ column < start + 1 + rest.length) ↔
        (start ≤ column ∧ column < start + (rest.length + 1))) := by omega
    rw [noteAll, hrest, hnote, List.length_cons]
    by_cases htime : Names "timestamp" heading
    · have hstart := hfirst.mp htime
      simp only [if_pos htime, hlater columns.message (by omega), ← hstart]
      rw [if_neg (by omega), if_pos (show start ≤ start ∧ start < start + (rest.length + 1) by omega)]
    · have hstart := fun heq => htime (hfirst.mpr heq)
      rw [if_neg htime]
      by_cases hsays : Names "message" heading
      · have hhere := (hsecond hstart).mp hsays
        simp only [if_pos hsays, hlater columns.timestamp (by omega), ← hhere]
        rw [if_neg (show ¬(start + 1 ≤ start ∧ start < start + 1 + rest.length) by omega),
          if_pos (show start ≤ start ∧ start < start + (rest.length + 1) by omega)]
      · have hhere := fun heq => hsays ((hsecond hstart).mpr heq)
        simp only [if_neg hsays, hlater columns.timestamp (Ne.symm hstart), hlater columns.message (Ne.symm hhere)]

end Noting

-- What a heading may be written with besides its own characters.
def Writes (written : Text → Text) (headings : List Text) : Prop :=
  ∀ heading ∈ headings, Spells (written heading) heading ∧ ∀ c ∈ written heading, c = '"' ∨ c ∈ heading

namespace Head

variable {columns : Columns} {headings : List Text} {written : Text → Text}

theorem writes_bare (h : columns.Head headings) : Writes id headings := by
  intro heading hheading
  refine ⟨spells_bare fun c hc => ?_, fun c hc => .inr hc⟩
  obtain ⟨hblank, hmarks⟩ := h.plain heading hheading c hc
  simp only [List.mem_cons, List.not_mem_nil, or_false, not_or] at hmarks
  exact ⟨hmarks.1, hmarks.2.1, endsRow_of_not_blank hblank⟩

theorem writes_quoted : Writes quoted headings :=
  fun heading _ => ⟨spells_quoted heading, fun _ => mem_quoted⟩

-- No character of a header is one that would keep its line from being a header.
theorem character_written (h : columns.Head headings) (hwrites : Writes written headings) {c : Char}
    (hc : c ∈ joined (headings.map written)) :
    Text.isBlank c = false ∧ c ∉ ['#', '$', '!', '\uFEFF'] := by
  rcases mem_joined hc with rfl | ⟨cell, hcell, hc⟩
  · decide
  · obtain ⟨heading, hheading, rfl⟩ := List.mem_map.mp hcell
    rcases (hwrites heading hheading).2 c hc with rfl | hown
    · decide
    · obtain ⟨hblank, hmarks⟩ := h.plain heading hheading c hown
      exact ⟨hblank, fun hmem => hmarks (by simp_all)⟩

theorem trim_written (h : columns.Head headings) (hwrites : Writes written headings) :
    Text.trim (joined (headings.map written)) = joined (headings.map written) :=
  Text.dropBothWhile_of_ends
    (fun _ hc => (h.character_written hwrites (List.mem_of_mem_head? hc)).1)
    fun _ hc => (h.character_written hwrites (List.mem_of_mem_getLast? hc)).1

theorem written_ne_nil (written : Text → Text) (h : columns.Head headings) : joined (headings.map written) ≠ [] := by
  apply joined_ne_nil
  rw [List.length_map]
  have htimestamp := h.timestamp_lt
  have hmessage := h.message_lt
  have hapart := h.apart
  omega

theorem ofHeader? (h : columns.Head headings) (hwrites : Writes written headings) :
    Columns.ofHeader? (joined (headings.map written)) = some columns := by
  obtain ⟨first, rest, hcons⟩ := List.exists_cons_of_ne_nil (h.written_ne_nil written)
  have hhead : (joined (headings.map written)).head? = some first := by rw [hcons, List.head?_cons]
  obtain ⟨hblank, hmarks⟩ := h.character_written hwrites (List.mem_of_mem_head? hhead)
  simp only [List.mem_cons, List.not_mem_nil, or_false, not_or] at hmarks
  have hend := endsRow_of_not_blank hblank
  have hne : headings ≠ [] := List.ne_nil_of_length_pos (Nat.zero_lt_of_lt h.timestamp_lt)
  have hcells := cells?_joined written hne (fun cell hcell => (hwrites cell hcell).1) hhead hmarks.2.2.2 hend
  have hnoted := noteAll_eq ⟨none, none⟩ 0 h.plain h.apart
    (fun index hindex => by simpa using h.timestamp index hindex)
    (fun index hindex hother => by simpa using h.message index hindex (by simpa using hother))
  rw [Columns.ofHeader?, h.trim_written hwrites]
  simp [hhead, hmarks, hcells, hnoted, h.timestamp_lt, h.message_lt]

end Head

end Columns

end VoyageLog
