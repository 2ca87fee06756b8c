import Conditionals.Cursor.Tracker

/-!
# Decorating an editor

A decorator turns signals of an editor into calls on the surface it draws on. A signal from
another line redraws every band and the status; a signal from the same line clears the bands and
leaves the status. A `Screen` is a surface on which the latest call wins.
-/

namespace Conditionals

open Decoration (Hint bandCount)

/-- A call on the surface a decorator draws on. -/
inductive HostCall where
  | band (band : Nat) (hints : List Hint)
  | status (text : String)
  | release
  deriving DecidableEq, Repr

structure Decorator where
  tracker : Tracker
  deriving DecidableEq, Repr

structure Occasion where
  signal : Signal
  text : Text
  cursor : Cursor
  deriving DecidableEq, Repr

structure Response where
  scanned : Bool
  calls : List HostCall
  decorator : Decorator
  deriving DecidableEq, Repr

def Refresh.calls : Refresh → List HostCall
  | .scanned decorations =>
    (List.range bandCount).map (fun band => .band band (decorations.band band)) ++
      [.status decorations.status]
  | .suppressed => (List.range bandCount).map fun band => .band band []

def Refresh.isScanned : Refresh → Bool
  | .scanned _ => true
  | .suppressed => false

namespace Decorator

def new (chosen : Categories) : Decorator :=
  { tracker := { chosen } }

def created : List HostCall :=
  [.status ({} : ActivePath).status]

def handle (decorator : Decorator) (signal : Signal) (text : Text) (cursor : Cursor) :
    Logged Response :=
  let refreshed := decorator.tracker.refresh text cursor
  let (refresh, tracker) := refreshed.value
  { value := { scanned := refresh.isScanned, calls := refresh.calls, decorator := { tracker } }
    log := logged decorator.tracker.chosen [.signalled signal] ++ refreshed.log }

def session (decorator : Decorator) : List Occasion → Logged (List Response)
  | [] => { value := [], log := [] }
  | occasion :: rest =>
    let response := decorator.handle occasion.signal occasion.text occasion.cursor
    let later := session response.value.decorator rest
    { value := response.value :: later.value, log := response.log ++ later.log }

def dropped : List HostCall :=
  [.release]

end Decorator

structure Screen where
  bands : List (List Hint) := List.replicate bandCount []
  status : String := ""
  deriving DecidableEq, Repr

namespace Screen

def apply (screen : Screen) : HostCall → Screen
  | .band band hints => { screen with bands := screen.bands.set band hints }
  | .status text => { screen with status := text }
  | .release => { screen with bands := List.replicate bandCount [] }

def applyAll (screen : Screen) (calls : List HostCall) : Screen :=
  calls.foldl apply screen

def shown (screen : Screen) : Nat :=
  screen.bands.flatten.length

end Screen
end Conditionals
