import Orin.Interrupts.Pit
import Orin.Theory.Ports

namespace Orin.Interrupts.Pit

open Theory Theory.Talk

def PIT_CHANNEL2_DATA : UInt16 := 0x42
def PIT_COMMAND : UInt16 := 0x43
def PORT_GATE : UInt16 := 0x61

def delay_ticks (micros : UInt32) : Nat :=
  min (max (micros.toNat * PIT_INPUT_HZ / 1000000) 1) 0xFFFF

-- The loop gives up when its counter passes 20 000 000, after one read more than that.
def spin_delay_us (micros : UInt32) : Talk UInt16 Unit := do
  let saved ← input PORT_GATE
  output PORT_GATE ((saved ||| 0x01) &&& ~~~0x02)
  output PIT_COMMAND 0xB0
  let ticks := delay_ticks micros
  output PIT_CHANNEL2_DATA (UInt8.ofNat (ticks &&& 0xFF))
  output PIT_CHANNEL2_DATA (UInt8.ofNat (ticks >>> 8))
  let _ ← Talk.poll PORT_GATE (fun b => b &&& ((1 : UInt8) <<< 5) ≠ 0) 20000001
  output PORT_GATE saved

def DELAY_ACCESSES : Nat := 20000007

theorem spin_delay_us_atMost (micros : UInt32) : AtMost DELAY_ACCESSES (spin_delay_us micros) := by
  refine AtMost.mono ?_ (show 1 + (1 + (1 + (1 + (1 + (20000001 + 1))))) ≤ DELAY_ACCESSES by decide)
  refine (AtMost.input _).bind fun saved => ?_
  refine (AtMost.output _ _).bind fun _ => ?_
  refine (AtMost.output _ _).bind fun _ => ?_
  refine (AtMost.output _ _).bind fun _ => ?_
  refine (AtMost.output _ _).bind fun _ => ?_
  exact (AtMost.poll _ _ _).bind fun _ => AtMost.output _ _

-- The delay stays away from every port but the gate and the timer's own two.
def OfDelay (port : UInt16) : Prop :=
  port = PORT_GATE ∨ port = PIT_COMMAND ∨ port = PIT_CHANNEL2_DATA

instance : DecidablePred OfDelay := fun _ => inferInstanceAs (Decidable (_ ∨ _ ∨ _))

theorem spin_delay_us_touches (micros : UInt32) : Touches OfDelay (spin_delay_us micros) := by
  have hgate : OfDelay PORT_GATE := .inl rfl
  have hcommand : OfDelay PIT_COMMAND := .inr (.inl rfl)
  have hdata : OfDelay PIT_CHANNEL2_DATA := .inr (.inr rfl)
  unfold spin_delay_us
  refine (Touches.input hgate).bind fun saved => ?_
  refine (Touches.output hgate _).bind fun _ => ?_
  refine (Touches.output hcommand _).bind fun _ => ?_
  refine (Touches.output hdata _).bind fun _ => ?_
  refine (Touches.output hdata _).bind fun _ => ?_
  exact (Touches.poll hgate _ _).bind fun _ => Touches.output hgate _

end Orin.Interrupts.Pit
