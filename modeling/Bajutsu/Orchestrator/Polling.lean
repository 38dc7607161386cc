import Mathlib.Data.Rat.Defs
import Mathlib.Tactic.Linarith

/-!
# Polling a device

A driver and a clock on a state of any kind: reading the screen or the clock takes time, and a sleep takes at least as
long as was asked for. A poll sleeps only for what is left of its interval.
-/

namespace Bajutsu.Orchestrator

structure Device (σ Tree : Type) where
  time : σ → ℚ
  tick : σ → σ
  query : σ → Tree × σ
  sleep : ℚ → σ → σ
  time_tick : ∀ st, time st ≤ time (tick st)
  time_query : ∀ st, time st ≤ time (query st).2
  time_sleep : ∀ d st, 0 ≤ d → time st + d ≤ time (sleep d st)

namespace Device

variable {σ Tree : Type} (device : Device σ Tree)

def now (st : σ) : ℚ × σ := (device.time st, device.tick st)

def pollInterval : ℚ := 1 / 20

def adaptiveSleep (before : ℚ) (st : σ) : σ :=
  let (now, st) := device.now st
  let remaining := pollInterval - (now - before)
  if 0 < remaining then device.sleep remaining st else st

end Device

end Bajutsu.Orchestrator
