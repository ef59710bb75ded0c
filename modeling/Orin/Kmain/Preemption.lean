import Orin.Kmain.Idle

namespace Orin.Kmain

open Console Drivers Interrupts Theory Theory.Prog

theorem report_counters_within : Within Keyboard.INPUT_LOCKS report_counters := by
  apply (Within.get _).bind
  intro c
  apply (Keyboard.logging_within (Log.log_within _ _ _)).bind
  intro _
  apply (Keyboard.event_count_within.mono (by decide)).bind
  intro events
  apply (Within.get _).bind
  intro pending
  apply (Within.get _).bind
  intro dropped
  exact Keyboard.logging_within (Log.log_within _ _ _)

theorem echo_within (ch : Char) : Within Log.LOG_LOCKS (echo ch) := by
  unfold echo
  split_ifs
  · exact (Log.write_serial_within _).bind fun _ => Log.write_vga_within _
  · exact (Log.write_serial_within _).bind fun _ => Log.write_vga_within _
  · exact Log.log_within _ _ _
  · exact (Log.write_serial_within _).bind fun _ => Log.write_vga_within _

theorem report_dropped_within : Within Log.LOG_LOCKS report_dropped := by
  apply (Within.get _).bind
  intro dropped
  apply Within.onlyIf
  apply (Within.get _).bind
  intro dropped
  exact Log.log_within _ _ _

theorem handle_key_within (ev : Keyboard.KeyEvent) :
    Within Keyboard.INPUT_LOCKS (handle_key ev) := by
  unfold handle_key
  split_ifs
  · exact Within.pure ()
  · exact report_counters_within
  · cases ev.ch with
    | none => exact Keyboard.logging_within (Log.log_within _ _ _)
    | some ch =>
        exact Keyboard.logging_within ((echo_within ch).bind fun _ => report_dropped_within)

theorem handle_keys_within (events : List Keyboard.KeyEvent) :
    Within Keyboard.INPUT_LOCKS (handle_keys events) := by
  induction events with
  | nil => exact Within.pure ()
  | cons ev events ih => exact (handle_key_within ev).bind fun _ => ih

theorem report_liveness_within : Within Keyboard.INPUT_LOCKS report_liveness := by
  apply (Pit.seconds_since_boot_within.mono (by decide)).bind
  intro seconds
  apply (Keyboard.event_count_within.mono (by decide)).bind
  intro events
  apply (Within.get _).bind
  intro pending
  apply (Within.get _).bind
  intro dropped
  exact Keyboard.logging_within (Log.log_within _ _ _)

theorem idle_turn_within : Within Keyboard.INPUT_LOCKS idle_turn := by
  apply (Keyboard.drain_within 16 []).bind
  intro events
  apply (handle_keys_within events).bind
  intro _
  apply (Within.await.onlyIf _).bind
  intro _
  apply (Within.get _).bind
  intro t
  exact report_liveness_within.onlyIf _

-- In an interleaving of the idle loop with its interrupts some context ends up waiting
-- for a lock unless every interrupt arrives while the loop holds none of its locks.
theorem no_handler_waits_iff (s : Kernel) (turns : List (Turn Irq)) :
    (∀ l, replay idle_step (idle s) turns ≠ .error (.waits l)) ↔
      ∀ past irq future c, turns = past ++ .interrupt irq :: future →
        replay idle_step (idle s) past = .ok c → Disjoint c.held (irq_locks c.state irq) := by
  have hstart : (idle s).Sound := idle_turn_within.balanced
  have hwaits : (∃ l, replay idle_step (idle s) turns = .error (.waits l)) ↔ _ :=
    replay_waits_iff idle_turn_within.balanced (fun irq => (on_irq_within irq).balanced) hstart turns
  rw [← not_exists, hwaits]
  constructor
  · intro hnone past irq future c hturns hpast
    by_contra hmeet
    refine hnone ⟨past, .interrupt irq, future, c, hturns, hpast, ?_⟩
    rwa [Contends, on_irq_requests]
  · rintro hall ⟨past, turn, future, c, hturns, hpast, hmeet⟩
    cases turn with
    | main => exact hmeet
    | interrupt irq =>
        rw [Contends, on_irq_requests] at hmeet
        exact hmeet (hall past irq future c hturns hpast)

-- Escape is pressed, and the loop gets as far as the time stamp of its record.
def escape_turns : List (Turn Irq) :=
  .interrupt (.keyboard 0x21 0x01) :: List.replicate 16 .main

theorem tick_inside_time_stamp :
    replay idle_step (idle Kernel.booted) (escape_turns ++ [.interrupt .timer]) =
      .error (.waits .ENABLED) := rfl

end Orin.Kmain
