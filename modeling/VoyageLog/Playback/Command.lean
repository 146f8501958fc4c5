import VoyageLog.Playback.Control
import VoyageLog.Playback.Seek

namespace VoyageLog.Player

inductive Command
  | load (recording : Recording)
  | loadFailed
  | scan
  | start
  | pause
  | stop
  | tick
  | rebase
  | wake (token : Token)
  | seek (fraction : Binary64)
  | setSpeed (number : Binary64)

inductive Answer
  | done
  | scanned (outcome : Except Scan.Failure Scan.Report)
  | sought (answer : SeekAnswer)

def Command.run (now : Nat) (player : Player) : Command → Answer × Step
  | load recording => (.done, player.load recording)
  | loadFailed => (.done, player.loadFailed)
  | scan =>
    let (outcome, step) := player.scan
    (.scanned outcome, step)
  | start => (.done, player.start now)
  | pause => (.done, player.pause)
  | stop => (.done, player.stop)
  | tick => (.done, player.tick now)
  | rebase => (.done, quietly (player.rebase now))
  | wake token => (.done, player.wake now token)
  | seek fraction =>
    let (answer, step) := player.seek now fraction
    (.sought answer, step)
  | setSpeed number => (.done, player.setSpeed now number)

end VoyageLog.Player
