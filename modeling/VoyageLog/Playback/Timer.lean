namespace VoyageLog

abbrev Token := Nat

-- Only notes what is asked of it.
structure ManualTimer where
  scheduled : List (Token × Nat)
  cancelled : List Token
  pending : Option Token
deriving DecidableEq

namespace ManualTimer

def fresh : ManualTimer := ⟨[], [], none⟩

def nextToken (timer : ManualTimer) : Token := timer.scheduled.length + 1

def schedule (timer : ManualTimer) (delay : Nat) : Token × ManualTimer :=
  let token := timer.nextToken
  (token, { timer with scheduled := timer.scheduled ++ [(token, delay)], pending := some token })

-- Noted even if the token is not pending.
def cancel (timer : ManualTimer) (token : Token) : ManualTimer where
  scheduled := timer.scheduled
  cancelled := timer.cancelled ++ [token]
  pending := if timer.pending = some token then none else timer.pending

def fire (timer : ManualTimer) : Option Token × ManualTimer :=
  (timer.pending, { timer with pending := none })

def delays (timer : ManualTimer) : List Nat := timer.scheduled.map (·.2)

def pendingDelay? (timer : ManualTimer) : Option Nat := do
  let token ← timer.pending
  (timer.scheduled.reverse.find? (·.1 = token)).map (·.2)

end ManualTimer

-- Every wake-up asked for is a sleep of its own. Only the latest one can still be called off. Tokens have no bound
-- here; counted in 64 bits, they come round again after 2 ^ 64 wake-ups.
structure SleepingTimer where
  issued : Nat
  latest : Option Token
  asleep : List Token
  delivered : List Token
deriving DecidableEq

namespace SleepingTimer

def fresh : SleepingTimer := ⟨0, none, [], []⟩

-- A sleep that is over already is past calling off.
def callOff (timer : SleepingTimer) : SleepingTimer :=
  match timer.latest with
  | none => timer
  | some token => { timer with latest := none, asleep := timer.asleep.erase token }

-- A new sleep takes the place of the latest one.
def schedule (timer : SleepingTimer) : Token × SleepingTimer :=
  let token := timer.issued + 1
  (token, ⟨token, some token, timer.callOff.asleep ++ [token], timer.delivered⟩)

-- What has been delivered stays so.
def cancel (timer : SleepingTimer) (token : Token) : SleepingTimer :=
  if timer.latest = some token then timer.callOff else timer

-- A sleep under way is over.
def elapse (timer : SleepingTimer) (token : Token) : SleepingTimer :=
  if token ∈ timer.asleep then
    { timer with asleep := timer.asleep.erase token, delivered := timer.delivered ++ [token] }
  else timer

-- Every sleep under way is over, the older ones first.
def expire (timer : SleepingTimer) : SleepingTimer := timer.asleep.foldl elapse timer

def receive (timer : SleepingTimer) : Option Token × SleepingTimer :=
  match timer.delivered with
  | [] => (none, timer)
  | token :: rest => (some token, { timer with delivered := rest })

end SleepingTimer

end VoyageLog
