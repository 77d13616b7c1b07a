import Sp18.Foundation.StepSystem
import Sp18.TuxController.LineDiscipline

/-!
# What the terminal driver takes

The bytes on their way to the controller, over any calls of `tuxctl_ldisc_put` and wake-ups. The
terminal driver takes at most as many bytes of what `write` hands to it as it has reported for
`write_room`, and it may take fewer.

`tuxctl_ldisc_write_wakeup` takes bytes out of the ring before the driver has them, and one more
than there is room for. So a wake-up loses nothing exactly if the driver has the room for all bytes
in the ring and takes them (`wakeup_line_iff`), and the bytes that `tuxctl_ldisc_put` has reported
as written stay on their way in the runs with such wake-ups only (`everyState_conserved_iff`).
-/

set_option autoImplicit false
set_option relaxedAutoImplicit false

namespace Sp18.TuxController

open Foundation

/-- An empty ring. -/
def emptyRing : ByteRing := ⟨fun _ ↦ 0, ⟨0, tuxctlBufsize_pos⟩, ⟨0, tuxctlBufsize_pos⟩⟩

/-- The data of an open line, with the bytes that the terminal driver has accepted and those that
`tuxctl_ldisc_put` has reported as written. -/
structure Transmission where
  data : TuxctlLdiscData
  accepted : List UInt8
  reported : List UInt8

/-- What the terminal driver does at a wake-up: the result of `write_room`, and how many bytes it
accepts if it has been handed that many. -/
structure Terminal where
  room : ℕ
  accepts : ℕ
  le_room : accepts ≤ room

/-- What can happen next: a call of `tuxctl_ldisc_put`, which wakes the line up at its end, or a
wake-up by the terminal driver. -/
inductive LineCall where
  | put (buf : List UInt8) (terminal : Terminal)
  | wakeup (terminal : Terminal)

namespace Transmission

/-- A transmission that begins with a ring that holds something, all of which has been reported. -/
def start (data : TuxctlLdiscData) : Transmission := ⟨data, [], data.tx.contents⟩

/-- One call. -/
def step (s : Transmission) : LineCall → Transmission
  | .put buf terminal =>
    let put := tuxctlLdiscPut s.data terminal.room buf
    { data := put.data
      accepted := s.accepted ++ put.sent.take terminal.accepts
      reported := s.reported ++ buf.take (buf.length - put.notWritten) }
  | .wakeup terminal =>
    let woken := tuxctlLdiscWriteWakeup s.data terminal.room
    { s with data := woken.1, accepted := s.accepted ++ woken.2.take terminal.accepts }

/-- The bytes accepted and those in the ring are the ones reported as written. -/
def Conserved (s : Transmission) : Prop := s.accepted ++ s.data.tx.contents = s.reported

instance : DecidablePred Conserved := fun s ↦
  inferInstanceAs (Decidable (s.accepted ++ s.data.tx.contents = s.reported))

/-- The driver accepts as many bytes as there are in the ring at its wake-up, which is after
`tuxctl_ldisc_put` has stored what fits. -/
def AcceptsAll (s : Transmission) : LineCall → Prop
  | .put buf terminal =>
    s.data.tx.contents.length + min buf.length s.data.tx.room ≤ terminal.accepts
  | .wakeup terminal => s.data.tx.contents.length ≤ terminal.accepts

/-- A wake-up loses nothing exactly if the driver accepts all bytes in the ring. -/
theorem wakeup_line_iff (data : TuxctlLdiscData) (accepted : List UInt8) (terminal : Terminal) :
    accepted ++ (tuxctlLdiscWriteWakeup data terminal.room).2.take terminal.accepts ++
          (tuxctlLdiscWriteWakeup data terminal.room).1.tx.contents =
        accepted ++ data.tx.contents ↔
      data.tx.contents.length ≤ terminal.accepts := by
  have hle := terminal.le_room
  have hone : ((terminal.room : ℤ) + 1).toNat = terminal.room + 1 := rfl
  have hbytes : (tuxctlLdiscWriteWakeup data terminal.room).2.take terminal.accepts =
      data.tx.contents.take terminal.accepts := by
    rw [tuxctlLdiscWriteWakeup, hone, Ring.drain_snd, List.take_take, Nat.min_eq_left (by omega)]
  have hring : (tuxctlLdiscWriteWakeup data terminal.room).1.tx.contents =
      data.tx.contents.drop (terminal.room + 1) := by
    rw [tuxctlLdiscWriteWakeup, hone, Ring.contents_drain_fst]
  rw [hbytes, hring, List.append_assoc, List.append_cancel_left_eq]
  constructor
  · intro hsame
    have hlength := congrArg List.length hsame
    rw [List.length_append, List.length_take, List.length_drop] at hlength
    -- the byte behind those that there is room for is nowhere
    omega
  · intro hall
    rw [List.take_of_length_le hall, List.drop_eq_nil_of_le (by omega), List.append_nil]

/-- What `tuxctl_ldisc_put` reports as written is what it has stored. -/
theorem put_reported (data : TuxctlLdiscData) (room : ℤ) (buf : List UInt8) :
    buf.take (buf.length - (tuxctlLdiscPut data room buf).notWritten) = buf.take data.tx.room := by
  rw [tuxctlLdiscPut_notWritten, List.take_eq_take_iff]
  omega

theorem conserved_step_iff {s : Transmission} (h : s.Conserved) (call : LineCall) :
    (s.step call).Conserved ↔ s.AcceptsAll call := by
  cases call with
  | put buf terminal =>
    have hstored := Ring.contents_fill_fst s.data.tx buf
    have hlength : (s.data.tx.fill buf).1.contents.length =
        s.data.tx.contents.length + min buf.length s.data.tx.room := by
      rw [hstored, List.length_append, List.length_take, Nat.min_comm]
    have hreported : s.reported ++ buf.take s.data.tx.room =
        s.accepted ++ (s.data.tx.fill buf).1.contents := by
      rw [hstored, ← List.append_assoc, h]
    simp only [Conserved, step, AcceptsAll, put_reported, hreported, ← hlength]
    exact wakeup_line_iff { s.data with tx := (s.data.tx.fill buf).1 } s.accepted terminal
  | wakeup terminal =>
    have hreported : s.reported = s.accepted ++ s.data.tx.contents := h.symm
    simp only [Conserved, step, AcceptsAll, hreported]
    exact wakeup_line_iff s.data s.accepted terminal

/-- The bytes reported as written stay on their way, in order, in exactly the runs in which the
driver accepts all bytes in the ring at every wake-up. -/
theorem everyState_conserved_iff (data : TuxctlLdiscData) (calls : List LineCall) :
    EveryState step Conserved (start data) calls ↔ EveryStep step AcceptsAll (start data) calls :=
  everyState_iff_everyStep (fun _ call h ↦ conserved_step_iff h call) (List.nil_append _)

/-- A byte for which the driver has no room is lost. -/
theorem conserved_not_always :
    ¬EveryState step Conserved (start ⟨emptyRing, emptyRing⟩) [.put [0xC3] ⟨0, 0, le_rfl⟩] := by
  decide

end Transmission

end Sp18.TuxController
