/-! Timers: while it runs, a timer does its work at every tick for which it is armed. -/
namespace Coap

structure Timer where
  armed : Bool := false
  running : Bool := true
  deriving DecidableEq

namespace Timer

def arm (t : Timer) : Timer := { t with armed := true }

def disarm (t : Timer) : Timer := { t with armed := false }

/-- A period has passed. The work may arm or disarm the timer. -/
def tick {σ : Type} (work : Timer → σ → Timer × σ) (t : Timer) (s : σ) : Timer × σ :=
  if t.running && t.armed then work t s else (t, s)

/-- So many periods pass. -/
def ticks {σ : Type} (work : Timer → σ → Timer × σ) : Nat → Timer → σ → Timer × σ
  | 0, t, s => (t, s)
  | n + 1, t, s =>
    let (t, s) := t.tick work s
    ticks work n t s

def text (t : Timer) : String :=
  "Timer \x7b armed: " ++ toString t.armed ++ ", running: " ++ toString t.running ++ " \x7d"

end Timer
end Coap
