import Mathlib.Data.List.Induction
import VoyageLog.Proofs.Calendar.Date
import VoyageLog.TimeSource.Inventory

namespace VoyageLog.TimeSource

namespace Details

-- What is known of a source that was seen at some instants.
def ofInstants : List Instant → Option Details
  | [] => none
  | instant :: rest => some (rest.foldl sight (first instant))

theorem ofInstants_append (instants : List Instant) (instant : Instant) :
    ofInstants (instants ++ [instant]) =
      some (((ofInstants instants).map (·.sight instant)).getD (first instant)) := by
  cases instants with
  | nil => rfl
  | cons earliest rest => simp [ofInstants]

section Sightings

variable {instants : List Instant} {details : Details}

theorem start_foldl_sight (instants : List Instant) (details : Details) :
    (instants.foldl sight details).start = details.start := by
  induction instants generalizing details with
  | nil => rfl
  | cons instant rest ih => exact ih _

theorem current_foldl_sight (instants : List Instant) (details : Details) :
    (instants.foldl sight details).current = (instants.getLast?).getD details.current := by
  induction instants using List.reverseRecOn with
  | nil => rfl
  | append_singleton before instant ih => simp [sight]

theorem latest_foldl_sight (instants : List Instant) (details : Details) :
    (instants.foldl sight details).latest = (instants.getLast?).getD details.latest := by
  induction instants using List.reverseRecOn with
  | nil => rfl
  | append_singleton before instant ih => simp [sight]

-- Each instant is compared with the one before it only, which by transitivity compares them all.
theorem isChronological_foldl_sight (instants : List Instant) (details : Details) :
    (instants.foldl sight details).isChronological = true ↔
      details.isChronological = true ∧ (details.current :: instants).Pairwise (· ≤ ·) := by
  induction instants generalizing details with
  | nil => simp
  | cons next rest ih =>
    have hnext : (details.sight next).isChronological = true ↔
        details.isChronological = true ∧ details.current ≤ next := by
      simp [sight]
    rw [List.foldl_cons, ih, hnext, and_assoc, List.pairwise_cons (a := details.current)]
    refine and_congr_right fun _ => and_congr_left fun hsorted => ?_
    have hlater := (List.pairwise_cons.mp hsorted).1
    constructor
    · intro hstep instant hmem
      rcases List.mem_cons.mp hmem with rfl | hmem
      · exact hstep
      · exact Instant.le_trans hstep (hlater instant hmem)
    · exact fun hall => hall next List.mem_cons_self

-- What is known of a source that was seen at some instants, field by field.
structure Summarizes (details : Details) (instants : List Instant) : Prop where
  start : instants.head? = some details.start
  current : instants.getLast? = some details.current
  latest : instants.getLast? = some details.latest
  chronological : details.isChronological = true ↔ instants.Pairwise (· ≤ ·)

theorem summarizes_foldl_sight (earliest : Instant) (rest : List Instant) :
    (rest.foldl sight (first earliest)).Summarizes (earliest :: rest) where
  start := by rw [start_foldl_sight]; rfl
  current := by rw [current_foldl_sight, List.getLast?_cons]; rfl
  latest := by rw [latest_foldl_sight, List.getLast?_cons]; rfl
  chronological := by rw [isChronological_foldl_sight]; simp [first]

-- There is no other summary of the same instants.
theorem ofInstants_eq_some_iff : ofInstants instants = some details ↔ details.Summarizes instants := by
  cases instants with
  | nil =>
    refine ⟨fun h => by simp [ofInstants] at h, fun h => ?_⟩
    cases h.start
  | cons earliest rest =>
    have hknown := summarizes_foldl_sight earliest rest
    rw [ofInstants, Option.some.injEq]
    constructor
    · rintro rfl
      exact hknown
    · intro h
      have hstart := Option.some.inj (hknown.start.symm.trans h.start)
      have hcurrent := Option.some.inj (hknown.current.symm.trans h.current)
      have hlatest := Option.some.inj (hknown.latest.symm.trans h.latest)
      have hchronological := Bool.eq_iff_iff.mpr (hknown.chronological.trans h.chronological.symm)
      obtain ⟨start, current, latest, isChronological⟩ := details
      exact congr (congr (congrArg₂ Details.mk hstart hcurrent) hlatest) hchronological

end Sightings

end Details

namespace Inventory

theorem get?_sight (inventory : Inventory) (seen source : TimeSource) (instant : Instant) :
    (inventory.sight seen instant).get? source =
      if seen = source then
        some (((inventory.get? source).map (·.sight instant)).getD (Details.first instant))
      else inventory.get? source := by
  induction inventory with
  | nil =>
    by_cases h : seen = source <;> simp [sight, get?, h]
  | cons entry rest ih =>
    obtain ⟨known, details⟩ := entry
    by_cases hknown : known = seen
    · subst hknown
      by_cases h : known = source <;> simp [sight, get?, h]
    · by_cases h : known = source
      · subst h
        simp [sight, get?, hknown, Ne.symm hknown]
      · simp only [get?, sight, hknown, if_false, List.find?_cons, decide_false, h] at ih ⊢
        exact ih

def sightAll (inventory : Inventory) (sightings : List (TimeSource × Instant)) : Inventory :=
  sightings.foldl (fun inventory sighting => inventory.sight sighting.1 sighting.2) inventory

-- Whatever else was seen in between, a source has the details of its own instants.
theorem get?_sightAll (sightings : List (TimeSource × Instant)) (source : TimeSource) :
    (sightAll [] sightings).get? source =
      Details.ofInstants ((sightings.filter (·.1 = source)).map (·.2)) := by
  induction sightings using List.reverseRecOn with
  | nil => rfl
  | append_singleton before sighting ih =>
    simp only [sightAll, List.foldl_append, List.foldl_cons, List.foldl_nil] at ih ⊢
    rw [get?_sight, ih]
    by_cases h : sighting.1 = source
    · simp [h, Details.ofInstants_append]
    · simp [h]

theorem map_fst_sight (inventory : Inventory) (source : TimeSource) (instant : Instant) :
    (inventory.sight source instant).map (·.1) =
      if source ∈ inventory.map (·.1) then inventory.map (·.1) else inventory.map (·.1) ++ [source] := by
  induction inventory with
  | nil => rfl
  | cons entry rest ih =>
    by_cases h : entry.1 = source
    · simp [sight, h]
    · simp only [sight, h, if_false, List.map_cons, ih, List.mem_cons, Ne.symm h, false_or]
      split <;> rfl

theorem get?_of_mem {inventory : Inventory} {source : TimeSource} {details : Details}
    (hnodup : (inventory.map (·.1)).Nodup) (h : (source, details) ∈ inventory) :
    inventory.get? source = some details := by
  induction inventory with
  | nil => cases h
  | cons entry rest ih =>
    simp only [List.map_cons, List.nodup_cons] at hnodup
    rcases List.mem_cons.mp h with rfl | hrest
    · simp [get?]
    · have hne : entry.1 ≠ source := fun heq => hnodup.1 (heq ▸ List.mem_map_of_mem hrest)
      have hfind := ih hnodup.2 hrest
      simpa [get?, hne] using hfind

end Inventory

end VoyageLog.TimeSource
