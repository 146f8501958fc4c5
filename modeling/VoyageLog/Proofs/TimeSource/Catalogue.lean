import Std.Data.HashMap.Lemmas
import VoyageLog.Proofs.TimeSource.Ranking

namespace VoyageLog.TimeSource

theorem getElem?_concat_eq_some_iff {names : List TimeSource} {last name : TimeSource} {place : Nat} :
    (names ++ [last])[place]? = some name ↔ names[place]? = some name ∨ place = names.length ∧ last = name := by
  rcases Nat.lt_trichotomy place names.length with hlt | rfl | hgt
  · rw [List.getElem?_append_left hlt]
    simp [Nat.ne_of_lt hlt]
  · simp
  · rw [List.getElem?_eq_none (by simp; omega), List.getElem?_eq_none (by omega)]
    simp [Nat.ne_of_gt hgt]

namespace Inventory

variable {inventory : Inventory} {source : TimeSource} {place : Nat}

theorem get?_eq_none_iff : inventory.get? source = none ↔ source ∉ inventory.map (·.1) := by
  rw [get?, Option.map_eq_none_iff, List.find?_eq_none, List.mem_map]
  constructor
  · rintro hnone ⟨entry, hmem, rfl⟩
    exact hnone entry hmem (decide_eq_true rfl)
  · intro hnew entry hmem heq
    exact hnew ⟨entry, hmem, of_decide_eq_true heq⟩

theorem sight_of_new (instant : Instant) (hnew : source ∉ inventory.map (·.1)) :
    inventory.sight source instant = inventory ++ [(source, Details.first instant)] := by
  induction inventory with
  | nil => rfl
  | cons entry rest ih =>
    simp only [List.map_cons, List.mem_cons, not_or] at hnew
    simp only [sight, if_neg (Ne.symm hnew.1), ih hnew.2, List.cons_append]

-- Only the entry at the place of the source is touched.
theorem sight_of_place (instant : Instant) (hnodup : (inventory.map (·.1)).Nodup)
    (hplace : (inventory.map (·.1))[place]? = some source) :
    inventory.sight source instant =
      inventory.modify place fun entry => (entry.1, entry.2.sight instant) := by
  induction inventory generalizing place with
  | nil => simp at hplace
  | cons entry rest ih =>
    simp only [List.map_cons, List.nodup_cons] at hnodup
    cases place with
    | zero =>
      have hfirst : entry.1 = source := by simpa using hplace
      simp [sight, hfirst]
    | succ place =>
      rw [List.map_cons, List.getElem?_cons_succ] at hplace
      have hne : entry.1 ≠ source := fun heq => hnodup.1 (heq ▸ List.mem_of_getElem? hplace)
      simp [sight, hne, ih hnodup.2 hplace]

end Inventory

structure Catalogue [Hashable TimeSource] where
  entries : Array (TimeSource × Details)
  places : Std.HashMap TimeSource Nat

namespace Catalogue

variable [Hashable TimeSource]

def empty : Catalogue := ⟨#[], ∅⟩

def sight (catalogue : Catalogue) (source : TimeSource) (instant : Instant) : Catalogue :=
  match catalogue.places[source]? with
  | some place =>
    ⟨catalogue.entries.modify place fun entry => (entry.1, entry.2.sight instant), catalogue.places⟩
  | none =>
    ⟨catalogue.entries.push (source, Details.first instant),
      catalogue.places.insert source catalogue.entries.size⟩

def sightAll (catalogue : Catalogue) (sightings : List (TimeSource × Instant)) : Catalogue :=
  sightings.foldl (fun catalogue sighting => catalogue.sight sighting.1 sighting.2) catalogue

def get? (catalogue : Catalogue) (source : TimeSource) : Option Details :=
  catalogue.places[source]?.bind fun place => catalogue.entries[place]?.map (·.2)

-- The entries are those of the inventory, and the map tells of each source, and of no other, where it stands.
structure Keeps (catalogue : Catalogue) (inventory : Inventory) : Prop where
  entries : catalogue.entries.toList = inventory
  places : ∀ (source : TimeSource) (place : Nat),
    catalogue.places[source]? = some place ↔ (inventory.map (·.1))[place]? = some source

section Keeping

variable {catalogue : Catalogue} {inventory : Inventory}

theorem Keeps.not_mem (h : catalogue.Keeps inventory) {source : TimeSource} :
    catalogue.places[source]? = none ↔ source ∉ inventory.map (·.1) := by
  simp only [List.mem_iff_getElem?, ← h.places, not_exists, Option.eq_none_iff_forall_ne_some]

-- The vector grows by an entry exactly when the map does.
theorem Keeps.sight (h : catalogue.Keeps inventory) (hnodup : (inventory.map (·.1)).Nodup)
    (source : TimeSource) (instant : Instant) :
    (catalogue.sight source instant).Keeps (inventory.sight source instant) := by
  have hnames := Inventory.map_fst_sight inventory source instant
  cases hplace : catalogue.places[source]? with
  | some place =>
    have hstands := (h.places source place).mp hplace
    have hmem : source ∈ inventory.map (·.1) := List.mem_of_getElem? hstands
    rw [if_pos hmem] at hnames
    simp only [Catalogue.sight, hplace]
    refine ⟨?_, ?_⟩
    · rw [Array.toList_modify, h.entries, Inventory.sight_of_place instant hnodup hstands]
    · rw [hnames]
      exact h.places
  | none =>
    have hnew := h.not_mem.mp hplace
    have hsize : catalogue.entries.size = (inventory.map (·.1)).length := by
      rw [← h.entries, List.length_map, Array.length_toList]
    rw [if_neg hnew] at hnames
    simp only [Catalogue.sight, hplace]
    refine ⟨?_, ?_⟩
    · rw [Array.toList_push, h.entries, Inventory.sight_of_new instant hnew]
    · intro other place
      rw [hnames, getElem?_concat_eq_some_iff, ← h.places, Std.HashMap.getElem?_insert, hsize]
      by_cases hother : source = other
      · subst hother
        simp [hplace, eq_comm]
      · simp [hother]

theorem keeps_sightAll (sightings : List (TimeSource × Instant)) :
    (empty.sightAll sightings).Keeps (Inventory.sightAll [] sightings) := by
  induction sightings using List.reverseRecOn with
  | nil => exact ⟨rfl, by simp [empty, sightAll, Inventory.sightAll]⟩
  | append_singleton before sighting ih =>
    simp only [sightAll, Inventory.sightAll, List.foldl_append, List.foldl_cons, List.foldl_nil] at ih ⊢
    exact ih.sight (Inventory.enumerates_sightAll before).once sighting.1 sighting.2

theorem Keeps.get?_eq (h : catalogue.Keeps inventory) (hnodup : (inventory.map (·.1)).Nodup)
    (source : TimeSource) : catalogue.get? source = inventory.get? source := by
  cases hplace : catalogue.places[source]? with
  | none =>
    have hnew := h.not_mem.mp hplace
    rw [Inventory.get?_eq_none_iff.mpr hnew]
    simp [get?, hplace]
  | some place =>
    have hstands := (h.places source place).mp hplace
    rw [List.getElem?_map, Option.map_eq_some_iff] at hstands
    obtain ⟨⟨_, details⟩, hentry, rfl⟩ := hstands
    rw [Inventory.get?_of_mem hnodup (List.mem_of_getElem? hentry)]
    simp [get?, hplace, ← Array.getElem?_toList, h.entries, hentry]

end Keeping

end Catalogue

namespace Inventory

def instantsOf (source : TimeSource) (sightings : List (TimeSource × Instant)) : List Instant :=
  (sightings.filter (·.1 = source)).map (·.2)

theorem get?_eq_some_iff (sightings : List (TimeSource × Instant)) (source : TimeSource) (details : Details) :
    (sightAll [] sightings).get? source = some details ↔ details.Summarizes (instantsOf source sightings) := by
  rw [get?_sightAll, Details.ofInstants_eq_some_iff]
  rfl

theorem mem_iff_get? (sightings : List (TimeSource × Instant)) (source : TimeSource) (details : Details) :
    (source, details) ∈ sightAll [] sightings ↔ (sightAll [] sightings).get? source = some details := by
  refine ⟨get?_of_mem (enumerates_sightAll sightings).once, fun h => ?_⟩
  obtain ⟨⟨found, _⟩, hfind, rfl⟩ := Option.map_eq_some_iff.mp h
  have hfound : found = source := by simpa using List.find?_some hfind
  rw [← hfound]
  exact List.mem_of_find?_eq_some hfind

-- What goes back in time has done so for good.
theorem chronological_of_later {sightings more : List (TimeSource × Instant)} {source : TimeSource}
    {earlier later : Details} (hearlier : (sightAll [] sightings).get? source = some earlier)
    (hlater : (sightAll (sightAll [] sightings) more).get? source = some later)
    (h : later.isChronological = true) : earlier.isChronological = true := by
  have hboth : sightAll (sightAll [] sightings) more = sightAll [] (sightings ++ more) := by
    simp [sightAll]
  rw [hboth, get?_eq_some_iff] at hlater
  rw [get?_eq_some_iff] at hearlier
  have hsorted := hlater.chronological.mp h
  rw [instantsOf, List.filter_append, List.map_append] at hsorted
  exact hearlier.chronological.mpr (List.pairwise_append.mp hsorted).1

-- Whatever was seen, an inventory lists every source once, in the order of the first sightings, and knows of each
-- the first instant, the last one, and whether any instant was before the one that preceded it. Of the sources that
-- never went back in time it chooses the first of the best.
theorem tells_of_all_sightings [Hashable TimeSource] (sightings : List (TimeSource × Instant)) :
    let inventory := sightAll [] sightings
    let catalogue := Catalogue.empty.sightAll sightings
    catalogue.Keeps inventory ∧
      (∀ source, catalogue.get? source = inventory.get? source) ∧
      Enumerates (sightings.map (·.1)) (inventory.map (·.1)) ∧
      (∀ source details, (source, details) ∈ inventory ↔ inventory.get? source = some details) ∧
      (∀ source details,
        inventory.get? source = some details ↔ details.Summarizes (instantsOf source sightings)) ∧
      (∀ source, inventory.get? source = none ↔ source ∉ sightings.map (·.1)) ∧
      (∀ more source earlier later, inventory.get? source = some earlier →
        (sightAll inventory more).get? source = some later → later.isChronological = true →
          earlier.isChronological = true) ∧
      (inventory.primary? = none ↔ ∀ entry ∈ inventory, entry.2.isChronological = false) ∧
      (∀ source, inventory.primary? = some source ↔ IsFirstBest inventory source) ∧
      ∀ source : TimeSource, source.score =
        (if source.kind = .rmc ∨ source.kind = .zda then 10 else 0) + 2 * source.precision := by
  intro inventory catalogue
  have hkeeps := Catalogue.keeps_sightAll sightings
  have hlisted := enumerates_sightAll sightings
  refine ⟨hkeeps, hkeeps.get?_eq hlisted.once, hlisted, mem_iff_get? sightings, get?_eq_some_iff sightings,
    ?_, ?_, primary?_eq_none_iff, fun source => primary?_eq_some_iff, ?_⟩
  · intro source
    rw [get?_eq_none_iff, hlisted.all]
  · intro more source earlier later hearlier hlater h
    exact chronological_of_later hearlier hlater h
  · rintro ⟨talker, kind, precision⟩
    cases kind <;> rfl

def onFirstDay (second : Fin 86400) : Instant := ⟨0, second, 0, by decide, by decide, second.isLt, by decide⟩

-- The finest source goes back in time later on, and of the two others, which are equally good, the first is chosen.
def earlySightings : List (TimeSource × Instant) :=
  [(⟨['G', 'P'], .rmc, 2⟩, onFirstDay 5), (⟨['I', 'I'], .zda, 0⟩, onFirstDay 5),
    (⟨['G', 'P'], .rmc, 0⟩, onFirstDay 4)]

def lateSightings : List (TimeSource × Instant) :=
  [(⟨['G', 'P'], .rmc, 2⟩, onFirstDay 4), (⟨['I', 'I'], .zda, 0⟩, onFirstDay 7)]

theorem tells_of_early_and_late_sightings :
    (sightAll [] (earlySightings ++ lateSightings)).primary? = some ⟨['I', 'I'], .zda, 0⟩ ∧
      ∃ earlier later, (sightAll [] earlySightings).get? ⟨['I', 'I'], .zda, 0⟩ = some earlier ∧
        (sightAll (sightAll [] earlySightings) lateSightings).get? ⟨['I', 'I'], .zda, 0⟩ = some later ∧
        later.isChronological = true ∧ earlier.isChronological = true := by
  let byScore : Hashable TimeSource := ⟨fun source => source.score.toUInt64⟩
  have hearlier : (sightAll [] earlySightings).get? ⟨['I', 'I'], .zda, 0⟩ =
      some ⟨onFirstDay 5, onFirstDay 5, onFirstDay 5, true⟩ := rfl
  have hlater : (sightAll (sightAll [] earlySightings) lateSightings).get? ⟨['I', 'I'], .zda, 0⟩ =
      some ⟨onFirstDay 5, onFirstDay 7, onFirstDay 7, true⟩ := rfl
  obtain ⟨-, -, -, -, -, -, hsticky, -, -, -⟩ := tells_of_all_sightings earlySightings
  obtain ⟨-, -, -, -, -, -, -, -, hprimary, -⟩ := tells_of_all_sightings (earlySightings ++ lateSightings)
  refine ⟨(hprimary _).mpr ⟨[_], _, [_], rfl, rfl, ?_, ?_⟩, _, _, hearlier, hlater, rfl,
    hsticky _ _ _ _ hearlier hlater rfl⟩ <;> decide

end Inventory

end VoyageLog.TimeSource
