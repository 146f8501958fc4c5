import VoyageLog.Recording.Csv

namespace VoyageLog.Csv

-- Within quotes a quote is written twice.
def quoted (cell : Text) : Text := '"' :: (cell.flatMap fun c => if c = '"' then ['"', '"'] else [c]) ++ ['"']

def joined : List Text → Text
  | [] => []
  | [cell] => cell
  | cell :: rest => cell ++ ',' :: joined rest

-- Text without the characters that mean something to the reader.
def Bare (cell : Text) : Prop := ∀ c ∈ cell, c ≠ ',' ∧ c ≠ '"' ∧ endsRow c = false

-- Whether a row ends with it or goes on, the text is read as this cell.
structure Spells (text cell : Text) : Prop where
  last : cellsFrom .atStart text = (cell, [])
  next : ∀ rest, cellsFrom .atStart (text ++ ',' :: rest) =
    (cell, (cellsFrom .atStart rest).1 :: (cellsFrom .atStart rest).2)

theorem cellsFrom_quoted (cell rest : Text) :
    cellsFrom .quoted ((cell.flatMap fun c => if c = '"' then ['"', '"'] else [c]) ++ '"' :: rest) =
      (cell ++ (cellsFrom .afterQuote rest).1, (cellsFrom .afterQuote rest).2) := by
  induction cell with
  | nil => simp [cellsFrom, action]
  | cons c others ih =>
    by_cases hquote : c = '"'
    · simp [hquote, cellsFrom, action, ih]
    · simp [hquote, cellsFrom, action, ih]

theorem spells_quoted (cell : Text) : Spells (quoted cell) cell := by
  have hopen : ∀ rest, cellsFrom .atStart (quoted cell ++ rest) =
      (cell ++ (cellsFrom .afterQuote rest).1, (cellsFrom .afterQuote rest).2) := by
    intro rest
    rw [← cellsFrom_quoted]
    simp [quoted, cellsFrom, action]
  refine ⟨?_, fun rest => ?_⟩
  · simpa [cellsFrom] using hopen []
  · simpa [cellsFrom, action, bareAction] using hopen (',' :: rest)

theorem cellsFrom_bare {cell : Text} (h : Bare cell) (rest : Text) :
    cellsFrom .bare (cell ++ rest) = (cell ++ (cellsFrom .bare rest).1, (cellsFrom .bare rest).2) := by
  induction cell with
  | nil => rfl
  | cons c others ih =>
    obtain ⟨hcomma, -, hend⟩ := h c (by simp)
    have hothers := ih fun other hother => h other (by simp [hother])
    simp [cellsFrom, action, bareAction, hcomma, hend, hothers]

-- Only a quote at its start would make a difference.
theorem cellsFrom_atStart {c : Char} (hquote : c ≠ '"') (rest : Text) :
    cellsFrom .atStart (c :: rest) = cellsFrom .bare (c :: rest) := by
  simp [cellsFrom, action, hquote]

theorem spells_bare {cell : Text} (h : Bare cell) : Spells cell cell := by
  have hstart : ∀ rest, (∀ c, rest.head? = some c → c ≠ '"') →
      cellsFrom .atStart (cell ++ rest) = (cell ++ (cellsFrom .bare rest).1, (cellsFrom .bare rest).2) := by
    intro rest hrest
    rw [← cellsFrom_bare h]
    cases hcell : cell with
    | nil =>
      cases hleft : rest with
      | nil => rfl
      | cons c others => exact cellsFrom_atStart (hrest c (by simp [hleft])) others
    | cons c others => exact cellsFrom_atStart (h c (by simp [hcell])).2.1 _
  refine ⟨?_, fun rest => ?_⟩
  · simpa [cellsFrom] using hstart [] (by simp)
  · simpa [cellsFrom, action, bareAction] using hstart (',' :: rest) (by simp)

theorem getLast_quoted (cell : Text) : (quoted cell).getLast? = some '"' := by
  rw [quoted, List.getLast?_append]
  rfl

theorem mem_quoted {cell : Text} {c : Char} (h : c ∈ quoted cell) : c = '"' ∨ c ∈ cell := by
  simp only [quoted, List.mem_append, List.mem_cons, List.mem_flatMap, List.not_mem_nil, or_false] at h
  rcases h with (rfl | ⟨other, hother, hc⟩) | rfl
  · exact .inl rfl
  · split at hc
    · exact .inl (by simpa using hc)
    · exact .inr (List.mem_singleton.mp hc ▸ hother)
  · exact .inl rfl

theorem mem_joined {cells : List Text} {c : Char} (h : c ∈ joined cells) : c = ',' ∨ ∃ cell ∈ cells, c ∈ cell := by
  induction cells with
  | nil => cases h
  | cons cell rest ih =>
    cases rest with
    | nil => exact .inr ⟨cell, by simp, h⟩
    | cons next others =>
      rw [joined, List.mem_append, List.mem_cons] at h
      rcases h with hcell | rfl | hrest
      · exact .inr ⟨cell, by simp, hcell⟩
      · exact .inl rfl
      · exact (ih hrest).imp_right fun ⟨other, hother, hc⟩ => ⟨other, by simp [hother], hc⟩
      · simp

-- The last cell ends the row.
theorem getLast_joined (written : Text → Text) {cells : List Text} {last : Char} (hne : cells ≠ [])
    (h : ∀ cell ∈ cells, (written cell).getLast? = some last) :
    (joined (cells.map written)).getLast? = some last := by
  induction cells with
  | nil => exact absurd rfl hne
  | cons cell rest ih =>
    cases rest with
    | nil => exact h cell (by simp)
    | cons next others =>
      have hrest := ih (by simp) fun other hother => h other (by simp [hother])
      simp only [List.map_cons, joined] at hrest ⊢
      rw [List.getLast?_append, List.getLast?_cons, hrest]
      rfl

-- Two cells have a comma between them.
theorem joined_ne_nil {cells : List Text} (h : 2 ≤ cells.length) : joined cells ≠ [] := by
  match cells, h with
  | cell :: next :: others, _ => simp [joined]

-- All the cells of a row come back, however each is written.
theorem cells_joined (written : Text → Text) {cells : List Text} (hne : cells ≠ [])
    (h : ∀ cell ∈ cells, Spells (written cell) cell) :
    (cellsFrom .atStart (joined (cells.map written))).1 ::
      (cellsFrom .atStart (joined (cells.map written))).2 = cells := by
  induction cells with
  | nil => exact absurd rfl hne
  | cons cell rest ih =>
    cases rest with
    | nil => simp [joined, (h cell (by simp)).last]
    | cons next others =>
      have hrest := ih (by simp) fun other hother => h other (by simp [hother])
      simp only [List.map_cons, joined, (h cell (by simp)).next]
      exact congrArg (cell :: ·) hrest

-- A row that begins with neither a byte order mark nor a line end is read as its cells.
theorem cells?_joined (written : Text → Text) {cells : List Text} (hne : cells ≠ [])
    (h : ∀ cell ∈ cells, Spells (written cell) cell) {first : Char}
    (hfirst : (joined (cells.map written)).head? = some first) (hmark : first ≠ '\uFEFF')
    (hend : endsRow first = false) : cells? (joined (cells.map written)) = some cells := by
  obtain ⟨rest, hcons⟩ := List.head?_eq_some_iff.mp hfirst
  have hrow : rowText (joined (cells.map written)) = joined (cells.map written) := by
    simp [rowText, hcons, hmark, hend]
  simp only [cells?, hrow]
  rw [if_neg (by simp [hcons])]
  exact congrArg some (cells_joined written hne h)

-- A cell has no characters but those of its row.
theorem mem_of_mem_cellsFrom {place : Place} {text : Text} {c : Char}
    (h : c ∈ (cellsFrom place text).1 ∨ ∃ cell ∈ (cellsFrom place text).2, c ∈ cell) : c ∈ text := by
  induction text generalizing place with
  | nil => simp [cellsFrom] at h
  | cons first rest ih =>
    simp only [cellsFrom] at h
    rw [List.mem_cons]
    split at h
    · rcases h with h | h
      · exact (List.mem_cons.mp h).imp_right fun hcell => ih (.inl hcell)
      · exact .inr (ih (.inr h))
    · exact .inr (ih h)
    · obtain ⟨cell, hcell, hc⟩ := h.resolve_left (by simp)
      rcases List.mem_cons.mp hcell with rfl | hcell
      · exact .inr (ih (.inl hc))
      · exact .inr (ih (.inr ⟨cell, hcell, hc⟩))
    · simp at h

theorem mem_of_mem_cells {text cell : Text} {cells : List Text} {c : Char} (h : cells? text = some cells)
    (hcell : cell ∈ cells) (hc : c ∈ cell) : c ∈ text := by
  have hrow : c ∈ rowText text := by
    simp only [cells?] at h
    split at h
    · cases h
    · obtain rfl := Option.some.inj h
      rcases List.mem_cons.mp hcell with rfl | hcell
      · exact mem_of_mem_cellsFrom (.inl hc)
      · exact mem_of_mem_cellsFrom (.inr ⟨cell, hcell, hc⟩)
  have htext := (List.dropWhile_sublist endsRow).subset hrow
  split at htext
  · exact List.mem_of_mem_tail htext
  · exact htext

end VoyageLog.Csv
