import VoyageLog.Proofs.Playback.Replay
import VoyageLog.Proofs.Recording.Table

namespace VoyageLog.Player

-- A table that was written to a file and is loaded from it is scanned to the rows that were written, and sends
-- their messages when it is played to its end without an eviction.
theorem table_replays {config : Config} {player : Player} (h : Reachable config player) (table : Table)
    (inQuotes : Bool) (returns : Nat) (name : String) :
    let text := Recording.written returns (table.lines inQuotes)
    ∀ recording ∈ [Recording.ofBytes name (Text.Utf8.encode text), Recording.ofText name text],
      let scanned := scan (load recording player).player
      scanned.1 = .ok ⟨true, !table.entries.isEmpty, table.entries.length, 0, table.entries.length⟩ ∧
        scanned.2.player.clock.timeline.map (·.first) = (table.entries.map (·.instant)).head? ∧
        scanned.2.player.clock.timeline.map (·.last) = (table.entries.map (·.instant)).getLast? ∧
        ∀ orders, scanned.2.player.PlaysOut orders →
          emitted (scanned.2.player.obeyAll orders).effects = table.entries.map (·.message) := by
  intro text recording hrecording scanned
  have htexts : recording.texts = table.lines inQuotes := by
    rcases List.mem_pair.mp hrecording with rfl | rfl
    · exact Recording.texts_ofBytes returns name (table.plain_lines inQuotes)
    · exact Recording.texts_ofText returns name (table.plain_lines inQuotes)
  obtain ⟨dataStart, ends, hscan, hspans, hrows⟩ := Table.scan_of_lines player.lockPrimary htexts
  have hloaded : (load recording player).player.lockPrimary = player.lockPrimary := by simp [load, reset]
  have hlog : (load recording player).player.log = some (Log.start recording) := rfl
  have hopened : scanned.2.player = player.opened recording := rfl
  have hclock := congrArg Player.clock (opened_eq hscan)
  refine ⟨?_, ?_, ?_, ?_⟩
  · have hreport := congrArg Prod.fst (scan_of_outcome hlog (hloaded ▸ hscan))
    have htimed : ends.isSome = !table.entries.isEmpty := by
      rw [← Option.isSome_map (f := (·.1)), hspans.first]
      cases table.entries <;> rfl
    rw [hreport, ← htimed]
    cases ends <;> rfl
  · rw [hopened, hclock, ← hspans.first]
    cases ends <;> rfl
  · rw [hopened, hclock, ← hspans.last]
    cases ends <;> rfl
  · intro orders hplays
    refine (hplays.emitted_data h hscan rfl).trans ?_
    exact Table.filterMap_rows (fun text => (table.columns.row? text).map (·.message)) (·.message) hrows
      fun entry hentry => by rw [Table.row?_row hentry]; rfl

-- Midnight of a leap second and the day before it, with a second in between.
def oddInstants : List Instant :=
  [⟨0, 86398, 0, by decide⟩, ⟨0, 86399, 1500000000, by decide⟩, ⟨1, 0, 0, by decide⟩]

-- Messages with all that means something to a reader of lines or of cells.
def oddMessages : List Text := ["#\"a\",\r".toList, [], " $b ".toList]

def oddTable : Table where
  headings := ["Message_ID".toList, "note".toList, "Received_TIMESTAMP".toList]
  columns := ⟨2, 0⟩
  entries := List.zipWith (fun instant message => ⟨instant, message.isEmpty, message, fun _ => ",\"".toList⟩)
    oddInstants oddMessages
  head := ⟨by decide +kernel, by decide, by decide, by decide, by decide +kernel, by decide +kernel⟩
  writable := by decide +kernel
  feedless := by decide +kernel
  sorted := by decide +kernel

-- Two wake-ups take the playback to the end.
theorem table_replays_odd_messages :
    let text := Recording.written 1 (oddTable.lines false)
    let scanned := scan (load (Recording.ofBytes "odd" (Text.Utf8.encode text)) newPlayer).player
    let orders := [⟨0, .start⟩, ⟨1000000000, .wake 1⟩, ⟨3000000000, .wake 2⟩]
    scanned.1 = .ok ⟨true, true, 3, 0, 3⟩ ∧ scanned.2.player.PlaysOut orders ∧
      emitted (scanned.2.player.obeyAll orders).effects = oddMessages := by
  have hnew : Reachable Config.default newPlayer := Reachable.new
  intro text scanned orders
  have hplays : scanned.2.player.PlaysOut orders := by
    refine ⟨⟨trivial, trivial, trivial, trivial⟩, ⟨?_, ?_, ?_, trivial⟩, ?_⟩
    · decide +kernel
    · decide +kernel
    · decide +kernel
    · decide +kernel
  obtain ⟨hreport, -, -, hsent⟩ := table_replays hnew oddTable false 1 "odd" _ (List.mem_cons_self ..)
  exact ⟨hreport, hplays, hsent orders hplays⟩

end VoyageLog.Player
