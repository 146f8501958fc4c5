import Mathlib.Data.List.DropRight
import VoyageLog.Text.Blank

namespace VoyageLog.Text

section Pieces

variable {α : Type}

theorem pieces_ne_nil (isMark : α → Bool) (text : List α) : pieces isMark text ≠ [] := by
  cases text with
  | nil => simp [pieces]
  | cons first rest =>
    simp only [pieces]
    split
    · simp
    · split <;> simp

theorem remainder_mem_pieces (isMark : α → Bool) (text : List α) : (terminated isMark text).2 ∈ pieces isMark text := by
  simp [terminated, List.getLastD_eq_getLast?, List.getLast?_eq_some_getLast (pieces_ne_nil isMark text)]

variable [BEq α] [LawfulBEq α] {mark : α} {text piece : List α}

-- A piece goes on to the next mark.
theorem pieces_append_mark (rest : List α) (h : mark ∉ piece) :
    pieces (· == mark) (piece ++ mark :: rest) = piece :: pieces (· == mark) rest := by
  induction piece with
  | nil => simp [pieces]
  | cons first piece ih =>
    obtain ⟨hfirst, hrest⟩ := not_or.mp (mt List.mem_cons.mpr h)
    simp [pieces, Ne.symm hfirst, ih hrest]

-- Without a mark there is one piece.
theorem pieces_of_not_mem (h : mark ∉ piece) : pieces (· == mark) piece = [piece] := by
  induction piece with
  | nil => rfl
  | cons first piece ih =>
    obtain ⟨hfirst, hrest⟩ := not_or.mp (mt List.mem_cons.mpr h)
    simp [pieces, Ne.symm hfirst, ih hrest]

theorem not_mem_of_mem_pieces (h : piece ∈ pieces (· == mark) text) : mark ∉ piece := by
  induction hlength : text.length using Nat.strongRecOn generalizing text with
  | ind length ih =>
    by_cases hmark : mark ∈ text
    · obtain ⟨front, rest, rfl, hfront⟩ := List.eq_append_cons_of_mem hmark
      rw [pieces_append_mark rest hfront] at h
      rcases List.mem_cons.mp h with rfl | h
      · exact hfront
      · exact ih rest.length (by simp at hlength; omega) h rfl
    · rw [pieces_of_not_mem hmark, List.mem_singleton] at h
      exact h ▸ hmark

-- Entries that each end with a mark, and nothing after the last one.
theorem terminated_flatMap {β : Type} (entries : List β) (content : β → List α)
    (h : ∀ entry ∈ entries, mark ∉ content entry) :
    terminated (· == mark) (entries.flatMap fun entry => content entry ++ [mark]) = (entries.map content, []) := by
  have hpieces : pieces (· == mark) (entries.flatMap fun entry => content entry ++ [mark]) =
      entries.map content ++ [[]] := by
    induction entries with
    | nil => rfl
    | cons entry rest ih =>
      have hrest := ih fun other hother => h other (by simp [hother])
      rw [List.flatMap_cons, List.append_assoc, List.singleton_append, pieces_append_mark _ (h entry (by simp)), hrest]
      rfl
  simp [terminated, hpieces, List.getLastD_eq_getLast?]

end Pieces

section Trimming

variable {p : Char → Bool} {text front back : Text}

theorem mem_of_mem_dropBothWhile {c : Char} (h : c ∈ dropBothWhile p text) : c ∈ text :=
  (List.dropWhile_sublist p).subset ((List.rdropWhile_prefix p _).subset h)

-- What is left begins and ends with characters that stay.
theorem dropBothWhile_idem : dropBothWhile p (dropBothWhile p text) = dropBothWhile p text := by
  have hend : List.rdropWhile p (dropBothWhile p text) = dropBothWhile p text :=
    List.rdropWhile_idempotent p _
  have hbegin : (dropBothWhile p text).dropWhile p = dropBothWhile p text := by
    cases hleft : dropBothWhile p text with
    | nil => rfl
    | cons first rest =>
      obtain ⟨dropped, hwhole⟩ : dropBothWhile p text <+: text.dropWhile p := List.rdropWhile_prefix p _
      have hfirst := List.head?_dropWhile_not p text
      rw [← hwhole, hleft] at hfirst
      exact List.dropWhile_cons_of_neg (by simpa using hfirst)
  change List.rdropWhile p ((dropBothWhile p text).dropWhile p) = _
  rw [hbegin, hend]

-- Text is left alone that begins and ends with characters that stay.
theorem dropBothWhile_of_ends (hfirst : ∀ c, text.head? = some c → p c = false)
    (hlast : ∀ c, text.getLast? = some c → p c = false) : dropBothWhile p text = text := by
  have hbegin : text.dropWhile p = text := by
    cases text with
    | nil => rfl
    | cons first rest => exact List.dropWhile_cons_of_neg (by simp [hfirst first rfl])
  have hend : List.rdropWhile p text = text := by
    rw [List.rdropWhile_eq_self_iff]
    intro hne
    simp [hlast _ (List.getLast?_eq_some_getLast hne)]
  change List.rdropWhile p (text.dropWhile p) = text
  rw [hbegin, hend]

theorem dropBothWhile_of_forall (h : ∀ c ∈ text, p c = false) : dropBothWhile p text = text :=
  dropBothWhile_of_ends (fun c hc => h c (List.mem_of_head? hc)) fun c hc => h c (List.mem_of_getLast? hc)

-- Characters that go at the end anyway do not matter.
theorem dropEndWhile_append (hback : ∀ c ∈ back, p c = true) : dropEndWhile p (text ++ back) = dropEndWhile p text := by
  have hreverse : ∀ c ∈ back.reverse, p c = true := fun c hc => hback c (List.mem_reverse.mp hc)
  rw [dropEndWhile, List.reverse_append, List.dropWhile_append_of_pos hreverse, dropEndWhile]

-- Nor do those at both ends.
theorem dropBothWhile_surrounded (hfront : ∀ c ∈ front, p c = true) (hback : ∀ c ∈ back, p c = true) :
    dropBothWhile p (front ++ (text ++ back)) = dropBothWhile p text := by
  rw [dropBothWhile, List.dropWhile_append_of_pos hfront, List.dropWhile_append]
  split
  · rename_i hgone
    rw [dropBothWhile, List.isEmpty_iff.mp hgone, List.dropWhile_eq_nil_iff.mpr hback]
  · exact dropEndWhile_append hback

theorem dropBothWhile_append (hback : ∀ c ∈ back, p c = true) :
    dropBothWhile p (text ++ back) = dropBothWhile p text := by
  have hnone : ∀ c ∈ ([] : Text), p c = true := by simp
  exact dropBothWhile_surrounded hnone hback

theorem isBlank_of_isDigit {c : Char} (h : c.isDigit = true) : isBlank c = false := by
  have hcode : 48 ≤ c.toNat ∧ c.toNat ≤ 57 := Char.isDigit_iff_toNat.mp h
  simp only [isBlank, blankRanges, List.any_cons, List.any_nil, Bool.or_false, Bool.or_eq_false_iff,
    Bool.and_eq_false_iff, decide_eq_false_iff_not]
  omega

theorem trim_trim (text : Text) : trim (trim text) = trim text := dropBothWhile_idem

end Trimming

end VoyageLog.Text
