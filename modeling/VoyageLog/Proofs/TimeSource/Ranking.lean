import Mathlib.Data.List.Basic
import VoyageLog.Proofs.TimeSource.Inventory

namespace VoyageLog.TimeSource.Inventory

variable {inventory before after : Inventory} {entry : TimeSource × Details} {best source : TimeSource}

-- Every source that was seen stands once in a list, where sources that were first seen earlier come first.
structure Enumerates (seen sources : List TimeSource) : Prop where
  once : sources.Nodup
  all : ∀ source, source ∈ sources ↔ source ∈ seen
  order : sources.Pairwise fun earlier later => seen.idxOf earlier < seen.idxOf later

-- A later sighting changes no place at which another source was first seen.
theorem Enumerates.order_concat {seen sources : List TimeSource} (h : Enumerates seen sources)
    (source : TimeSource) :
    sources.Pairwise fun earlier later => (seen ++ [source]).idxOf earlier < (seen ++ [source]).idxOf later := by
  refine h.order.imp_of_mem fun {earlier later} hearlier hlater hlt => ?_
  rw [List.idxOf_append_of_mem ((h.all earlier).mp hearlier), List.idxOf_append_of_mem ((h.all later).mp hlater)]
  exact hlt

theorem Enumerates.again {seen sources : List TimeSource} (h : Enumerates seen sources) (hseen : source ∈ seen) :
    Enumerates (seen ++ [source]) sources where
  once := h.once
  all other := by
    rw [h.all, List.mem_append, List.mem_singleton]
    constructor
    · exact .inl
    · rintro (hmem | rfl)
      · exact hmem
      · exact hseen
  order := h.order_concat source

theorem Enumerates.concat {seen sources : List TimeSource} (h : Enumerates seen sources) (hnew : source ∉ seen) :
    Enumerates (seen ++ [source]) (sources ++ [source]) where
  once := by
    rw [List.nodup_append]
    refine ⟨h.once, by simp, ?_⟩
    rintro other hother last hlast rfl
    rw [List.mem_singleton.mp hlast] at hother
    exact hnew ((h.all source).mp hother)
  all other := by simp [h.all]
  order := by
    rw [List.pairwise_append]
    refine ⟨h.order_concat source, by simp, ?_⟩
    intro earlier hearlier last hlast
    have hmem := (h.all earlier).mp hearlier
    have hlt := List.idxOf_lt_length_of_mem hmem
    rw [List.mem_singleton.mp hlast, List.idxOf_append_of_mem hmem, List.idxOf_append_of_notMem hnew]
    omega

theorem enumerates_sightAll (sightings : List (TimeSource × Instant)) :
    Enumerates (sightings.map (·.1)) ((sightAll [] sightings).map (·.1)) := by
  induction sightings using List.reverseRecOn with
  | nil => exact ⟨by simp [sightAll], by simp [sightAll], by simp [sightAll]⟩
  | append_singleton before sighting ih =>
    simp only [sightAll, List.foldl_append, List.foldl_cons, List.foldl_nil, List.map_append, List.map_cons,
      List.map_nil, map_fst_sight] at ih ⊢
    split
    · rename_i hseen
      exact ih.again ((ih.all _).mp hseen)
    · rename_i hnew
      exact ih.concat fun hseen => hnew ((ih.all _).mpr hseen)

-- A source with the best score of all that never went back in time, and the first such.
def IsFirstBest (inventory : Inventory) (source : TimeSource) : Prop :=
  ∃ before details after, inventory = before ++ (source, details) :: after ∧ details.isChronological = true ∧
    (∀ entry ∈ before, entry.2.isChronological = true → entry.1.score < source.score) ∧
    ∀ entry ∈ after, entry.2.isChronological = true → entry.1.score ≤ source.score

theorem IsFirstBest.score_le (h : IsFirstBest inventory best) (hentry : entry ∈ inventory)
    (hchronological : entry.2.isChronological = true) : entry.1.score ≤ best.score := by
  obtain ⟨before, details, after, rfl, -, hbefore, hafter⟩ := h
  rcases List.mem_append.mp hentry with hmem | hmem
  · exact Nat.le_of_lt (hbefore entry hmem hchronological)
  · rcases List.mem_cons.mp hmem with rfl | hmem
    · exact Nat.le_refl _
    · exact hafter entry hmem hchronological

-- An entry that is no better, or that went back in time, changes nothing.
theorem IsFirstBest.concat (h : IsFirstBest inventory best)
    (hentry : entry.2.isChronological = true → entry.1.score ≤ best.score) :
    IsFirstBest (inventory ++ [entry]) best := by
  obtain ⟨before, details, after, rfl, hchronological, hbefore, hafter⟩ := h
  refine ⟨before, details, after ++ [entry], by simp, hchronological, hbefore, ?_⟩
  intro other hother
  rcases List.mem_append.mp hother with hmem | hmem
  · exact hafter other hmem
  · rw [List.mem_singleton.mp hmem]
    exact hentry

theorem isFirstBest_concat (hchronological : entry.2.isChronological = true)
    (h : ∀ other ∈ inventory, other.2.isChronological = true → other.1.score < entry.1.score) :
    IsFirstBest (inventory ++ [entry]) entry.1 :=
  ⟨inventory, entry.2, [], rfl, hchronological, h, by simp⟩

theorem primary?_concat (inventory : Inventory) (entry : TimeSource × Details) :
    primary? (inventory ++ [entry]) = better (primary? inventory) entry := by
  simp [primary?]

-- What the search has found of the entries so far.
theorem primary?_spec (inventory : Inventory) :
    (∀ source, inventory.primary? = some source → IsFirstBest inventory source) ∧
      (inventory.primary? = none → ∀ entry ∈ inventory, entry.2.isChronological = false) := by
  induction inventory using List.reverseRecOn with
  | nil => simp [primary?]
  | append_singleton inventory entry ih =>
    obtain ⟨hfound, hnothing⟩ := ih
    rw [primary?_concat]
    cases hchronological : entry.2.isChronological with
    | false =>
      have hsame : better (primary? inventory) entry = primary? inventory := by simp [better, hchronological]
      rw [hsame]
      refine ⟨fun source hsource => (hfound source hsource).concat (by simp [hchronological]), ?_⟩
      intro hnone other hother
      rcases List.mem_append.mp hother with hmem | hmem
      · exact hnothing hnone other hmem
      · rwa [List.mem_singleton.mp hmem]
    | true =>
      cases hbest : primary? inventory with
      | none =>
        have hfirst : better none entry = some entry.1 := by simp [better, hchronological]
        rw [hfirst]
        refine ⟨?_, by simp⟩
        rintro _ ⟨⟩
        refine isFirstBest_concat hchronological fun other hmem hother => ?_
        simp [hnothing hbest other hmem] at hother
      | some best =>
        have hleads := hfound best hbest
        by_cases hscore : best.score < entry.1.score
        · have hbetter : better (some best) entry = some entry.1 := by simp [better, hchronological, hscore]
          rw [hbetter]
          refine ⟨?_, by simp⟩
          rintro _ ⟨⟩
          refine isFirstBest_concat hchronological fun other hmem hother => ?_
          exact Nat.lt_of_le_of_lt (hleads.score_le hmem hother) hscore
        · have hkept : better (some best) entry = some best := by simp [better, hchronological, hscore]
          rw [hkept]
          refine ⟨?_, by simp⟩
          rintro _ ⟨⟩
          exact hleads.concat fun _ => Nat.le_of_not_lt hscore

-- Two that are both the first of the best cannot stand at different places.
theorem IsFirstBest.unique (h : IsFirstBest inventory best) (hother : IsFirstBest inventory source) :
    best = source := by
  obtain ⟨before, details, after, rfl, hchronological, hbefore, hafter⟩ := h
  obtain ⟨otherBefore, otherDetails, otherAfter, heq, hotherChronological, hotherBefore, hotherAfter⟩ := hother
  rcases List.append_eq_append_iff.mp heq with ⟨between, rfl, hrest⟩ | ⟨between, rfl, hrest⟩
  · cases between with
    | nil => exact congrArg Prod.fst (List.cons.inj hrest).1
    | cons first rest =>
      obtain ⟨rfl, rfl⟩ := List.cons.inj hrest
      have hlt := hotherBefore (best, details) (by simp) hchronological
      have hle := hafter (source, otherDetails) (by simp) hotherChronological
      exact absurd hlt (Nat.not_lt_of_le hle)
  · cases between with
    | nil => exact (congrArg Prod.fst (List.cons.inj hrest).1).symm
    | cons first rest =>
      obtain ⟨rfl, rfl⟩ := List.cons.inj hrest
      have hlt := hbefore (source, otherDetails) (by simp) hotherChronological
      have hle := hotherAfter (best, details) (by simp) hchronological
      exact absurd hlt (Nat.not_lt_of_le hle)

theorem primary?_eq_some_iff : inventory.primary? = some source ↔ IsFirstBest inventory source := by
  obtain ⟨hfound, hnothing⟩ := primary?_spec inventory
  refine ⟨hfound source, fun h => ?_⟩
  cases hbest : inventory.primary? with
  | some best => rw [(hfound best hbest).unique h]
  | none =>
    obtain ⟨before, details, after, rfl, hchronological, -, -⟩ := h
    have hfalse := hnothing hbest (source, details) (by simp)
    simp [hchronological] at hfalse

-- A primary source is one that never went back in time.
theorem primary?_mem (h : inventory.primary? = some source) :
    ∃ details, (source, details) ∈ inventory ∧ details.isChronological = true := by
  obtain ⟨before, details, after, rfl, hchronological, -, -⟩ := primary?_eq_some_iff.mp h
  exact ⟨details, by simp, hchronological⟩

theorem primary?_eq_none_iff :
    inventory.primary? = none ↔ ∀ entry ∈ inventory, entry.2.isChronological = false := by
  refine ⟨(primary?_spec inventory).2, fun h => ?_⟩
  cases hbest : inventory.primary? with
  | none => rfl
  | some best =>
    obtain ⟨details, hmem, hchronological⟩ := primary?_mem hbest
    have hfalse : details.isChronological = false := h _ hmem
    simp [hfalse] at hchronological

end VoyageLog.TimeSource.Inventory
