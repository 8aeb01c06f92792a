import Sortie.Run.Engine

/-!
# Listening to a run

What a log of effects says to those who listen: the values shown anew, the events as far as
there was room for them, and the orders.
-/

namespace Sortie.Run

namespace Effect

def event? : Effect → Option Event
  | .event x => some x
  | .order .. | .show _ => none

def order? : Effect → Option (Order × Option String)
  | .order o refusal => some (o, refusal)
  | .event _ | .show _ => none

/-- Whether a value is shown anew. -/
def shows (c : Channel) : Effect → Bool
  | .show d => c = d
  | .event _ | .order .. => false

end Effect

def Channel.all : List Channel :=
  [.state, .progress, .elapsed, .distance, .navigating, .ready, .watch]

namespace Listener

/-- The values shown anew, each once. -/
def shown (log : List Effect) : List Channel :=
  Channel.all.filter fun c => log.any (·.shows c)

/-- Room for events comes in powers of two. -/
def room (buffer : Nat) : Nat :=
  buffer.nextPowerOfTwo

/-- How many of the events a listener has lost, and those that are left. The oldest are lost. -/
def heard (buffer : Nat) (log : List Effect) : Nat × List Event :=
  let events := log.filterMap Effect.event?
  let lost := events.length - room buffer
  (lost, events.drop lost)

end Listener

end Sortie.Run
