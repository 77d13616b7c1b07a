import Sp18.TuxController.Link
import Sp18.TuxController.Transmission
import Mathlib.Data.List.TakeDrop

/-!
# Commands in the transmit ring

The driver writes a command to the ring as a sequence of bytes, of which `tuxctl_ldisc_put` stores
as many as there is room for. It returns how many it has not stored, but no caller looks at that:
where there is room for a part of a command only, a truncated command goes to the controller, and an
ioctl that returns 0 may have queued nothing. What has entered the ring is lost where the terminal
driver does not take it (`Transmission`): then a truncated command reaches the controller although
it has entered the ring as a whole.

In the runs in which the terminal driver takes all that is in the ring at each wake-up, all commands
are whole exactly if each ioctl finds the room for its command, and each packet that makes the
driver send one finds that room or none at all (`everyStep_whole_iff`).
-/

set_option autoImplicit false
set_option relaxedAutoImplicit false

namespace Sp18.TuxController

open Foundation

/-- What calls the driver: a user, the line discipline with a packet, or the terminal driver, which
only makes it take bytes out of the ring. -/
inductive DriverCall where
  | ioctl (cmd : TuxCommand) (arg : BitVec 32)
  | packet (packet : Packet)
  | wakeup

/-- A call, with what the terminal driver does at the wake-up in it. A call of the driver passes at
most one command to `tuxctl_ldisc_put`, so that there is one wake-up at most. -/
structure DriverEvent where
  call : DriverCall
  terminal : Terminal

/-- The driver and the data of its open line, with the bytes that the terminal driver has
accepted. -/
structure Sending where
  globals : Globals
  data : TuxctlLdiscData
  accepted : List UInt8

namespace Sending

/-- A driver that has handed over nothing yet. -/
def start (g : Globals) (data : TuxctlLdiscData) : Sending := ⟨g, data, []⟩

/-- A buffer is passed to `tuxctl_ldisc_put`. -/
def put (terminal : Terminal) (s : Sending) (buf : List UInt8) : Sending :=
  let put := tuxctlLdiscPut s.data terminal.room buf
  { s with data := put.data, accepted := s.accepted ++ put.sent.take terminal.accepts }

/-- What the driver does upon a call. -/
def effect (s : Sending) : DriverCall → Effect
  | .ioctl cmd arg => (tuxctlIoctl s.globals cmd arg).toEffect
  | .packet packet => tuxctlHandlePacket s.globals packet
  | .wakeup => { globals := s.globals, puts := [] }

/-- What an ioctl returns. -/
def result (s : Sending) : DriverCall → Option ℤ
  | .ioctl cmd arg => some (tuxctlIoctl s.globals cmd arg).result
  | _ => none

/-- One event. -/
def step (s : Sending) (event : DriverEvent) : Sending :=
  match event.call with
  | .wakeup =>
    let woken := tuxctlLdiscWriteWakeup s.data event.terminal.room
    { s with data := woken.1, accepted := s.accepted ++ woken.2.take event.terminal.accepts }
  | call =>
    let effect := s.effect call
    effect.puts.foldl (put event.terminal) { s with globals := effect.globals }

/-- The part of a buffer that enters the transmit ring. -/
def entering (s : Sending) (room : ℤ) (buf : List UInt8) : List UInt8 :=
  buf.take (buf.length - (tuxctlLdiscPut s.data room buf).notWritten)

/-- A command enters the ring as a whole or not at all, and as a whole if an ioctl returns 0. -/
structure Whole (s : Sending) (event : DriverEvent) : Prop where
  allOrNothing : ∀ buf ∈ (s.effect event.call).puts,
    s.entering event.terminal.room buf = [] ∨ s.entering event.terminal.room buf = buf
  queued : s.result event.call = some 0 → ∀ buf ∈ (s.effect event.call).puts,
    s.entering event.terminal.room buf = buf

/-- What goes to the controller: the bytes that the terminal driver has accepted and those in the
ring. -/
def line (s : Sending) : List UInt8 := s.accepted ++ s.data.tx.contents

/-- Behind what was in the ring at first, only whole commands go to the controller. -/
def WholeLine (before : List UInt8) (s : Sending) : Prop :=
  ∃ commands : List (List UInt8),
    (∀ command ∈ commands, command = [mtcpBiocOn, mtcpLedUsr] ∨ ∃ arg, command = buffy arg) ∧
      s.line = before ++ commands.flatten

/-- The command that a call makes the driver send. -/
def issued (s : Sending) : DriverCall → Option (List UInt8)
  | .ioctl .tuxInit _ => some [mtcpBiocOn, mtcpLedUsr]
  | .ioctl .tuxSetLed arg => if s.globals.flag = 1 then none else some (buffy arg)
  | .ioctl _ _ => none
  | .packet packet =>
    if packet.p0 = mtcpReset then some [mtcpBiocOn, mtcpLedUsr]
    else if packet.p0 = mtcpAck ∧ Link.ackedCount s.globals.ack = 0 ∧ s.globals.resend = 1 then
      some (buffy s.globals.reset)
    else none
  | .wakeup => none

/-- There is room for the command, or a packet finds no room at all. -/
def HasRoom (s : Sending) (event : DriverEvent) : Prop :=
  ∀ command ∈ s.issued event.call, command.length ≤ s.data.tx.room ∨
    (∃ packet, event.call = .packet packet) ∧ s.data.tx.room = 0

/-- The terminal driver accepts as many bytes as there are in the ring at the wake-up, which is
after `tuxctl_ldisc_put` has stored what fits. -/
def AcceptsAll (s : Sending) (event : DriverEvent) : Prop :=
  match event.call with
  | .wakeup => s.data.tx.contents.length ≤ event.terminal.accepts
  | call => ∀ command ∈ s.issued call,
      s.data.tx.contents.length + min command.length s.data.tx.room ≤ event.terminal.accepts

variable {s : Sending} {before : List UInt8}

/-! ### The commands that are sent -/

theorem puts_eq (s : Sending) (call : DriverCall) :
    (s.effect call).puts = (s.issued call).toList := by
  cases call with
  | ioctl cmd arg =>
    cases cmd with
    | tuxInit => rfl
    | tuxButtons =>
      simp only [effect, tuxctlIoctl, issued]
      split_ifs <;> rfl
    | tuxSetLed =>
      simp only [effect, tuxctlIoctl, issued]
      split_ifs <;> rfl
    | unknown => rfl
  | packet packet =>
    have hne : mtcpAck ≠ mtcpReset := by decide
    by_cases hreset : packet.p0 = mtcpReset
    · rw [effect, Link.handlePacket_reset s.globals hreset, issued, if_pos hreset]
      rfl
    · by_cases hack : packet.p0 = mtcpAck
      · by_cases hlast : Link.ackedCount s.globals.ack = 0 ∧ s.globals.resend = 1
        · rw [effect, Link.handlePacket_lastAck hack hlast, issued, if_neg hreset,
            if_pos ⟨hack, hlast⟩]
          rfl
        · rw [effect, Link.handlePacket_ack hack hlast, issued, if_neg hreset,
            if_neg fun h ↦ hlast h.2]
          rfl
      · rw [issued, if_neg hreset, if_neg fun h ↦ hack h.1, effect, tuxctlHandlePacket, if_neg hack]
        split_ifs <;> rfl
  | wakeup => rfl

theorem issued_command {call : DriverCall} {command : List UInt8}
    (h : command ∈ s.issued call) :
    command = [mtcpBiocOn, mtcpLedUsr] ∨ ∃ arg, command = buffy arg := by
  cases call with
  | ioctl cmd arg =>
    cases cmd with
    | tuxInit => exact Or.inl (Option.some.inj h).symm
    | tuxButtons => cases h
    | tuxSetLed =>
      rw [issued, Option.mem_def] at h
      split_ifs at h
      exact Or.inr ⟨arg, (Option.some.inj h).symm⟩
    | unknown => cases h
  | packet packet =>
    rw [issued, Option.mem_def] at h
    split_ifs at h
    · exact Or.inl (Option.some.inj h).symm
    · exact Or.inr ⟨s.globals.reset, (Option.some.inj h).symm⟩
  | wakeup => cases h

/-- An ioctl that sends a command returns 0. -/
theorem result_of_issued {cmd : TuxCommand} {arg : BitVec 32} {command : List UInt8}
    (h : command ∈ s.issued (.ioctl cmd arg)) : s.result (.ioctl cmd arg) = some 0 := by
  cases cmd with
  | tuxInit => rfl
  | tuxButtons => cases h
  | tuxSetLed =>
    rw [issued, Option.mem_def] at h
    split_ifs at h with hflag
    rw [result, tuxctlIoctl, if_neg hflag]
  | unknown => cases h

/-! ### The room for them -/

section Entering

variable {room : ℤ} {buf : List UInt8}

theorem entering_eq (s : Sending) (room : ℤ) (buf : List UInt8) :
    s.entering room buf = buf.take s.data.tx.room :=
  Transmission.put_reported s.data room buf

theorem entering_eq_self_iff : s.entering room buf = buf ↔ buf.length ≤ s.data.tx.room := by
  rw [entering_eq, List.take_eq_self_iff]

/-- Of a command, nothing enters the ring exactly if there is no room at all. -/
theorem entering_eq_nil_iff {call : DriverCall} (h : buf ∈ s.issued call) :
    s.entering room buf = [] ↔ s.data.tx.room = 0 := by
  have hnonempty : buf ≠ [] := by
    rcases issued_command h with rfl | ⟨arg, rfl⟩
    · exact List.cons_ne_nil _ _
    · exact List.cons_ne_nil _ _
  rw [entering_eq, List.take_eq_nil_iff, or_iff_left hnonempty]

end Entering

/-- Where a step is whole, only a packet finds no room for its command: an ioctl returns 0 all the
same. -/
theorem packet_of_not_fits {event : DriverEvent} (h : s.Whole event) {command : List UInt8}
    (hcommand : command ∈ s.issued event.call) (hfits : ¬command.length ≤ s.data.tx.room) :
    ∃ packet, event.call = .packet packet := by
  have hput : command ∈ (s.effect event.call).puts := by
    rwa [puts_eq, Option.mem_toList]
  cases hcall : event.call with
  | ioctl cmd arg =>
    rw [hcall] at hcommand
    have hresult : s.result event.call = some 0 := by
      rw [hcall]
      exact result_of_issued hcommand
    exact absurd (entering_eq_self_iff.mp (h.queued hresult command hput)) hfits
  | packet packet => exact ⟨packet, rfl⟩
  | wakeup =>
    rw [hcall] at hcommand
    cases hcommand

theorem whole_iff (s : Sending) (event : DriverEvent) : s.Whole event ↔ s.HasRoom event := by
  have hmem : ∀ buf, buf ∈ (s.effect event.call).puts ↔ buf ∈ s.issued event.call := by
    intro buf
    rw [puts_eq, Option.mem_toList, Option.mem_def]
  constructor
  · intro hwhole command hcommand
    by_cases hfits : command.length ≤ s.data.tx.room
    · exact Or.inl hfits
    · have hnone := (hwhole.allOrNothing command ((hmem command).mpr hcommand)).resolve_right
        (entering_eq_self_iff.not.mpr hfits)
      exact Or.inr
        ⟨packet_of_not_fits hwhole hcommand hfits, (entering_eq_nil_iff hcommand).mp hnone⟩
  · intro hroom
    constructor
    · intro buf hbuf
      have hissued := (hmem buf).mp hbuf
      rcases hroom buf hissued with hfits | ⟨-, hnone⟩
      · exact Or.inr (entering_eq_self_iff.mpr hfits)
      · exact Or.inl ((entering_eq_nil_iff hissued).mpr hnone)
    · intro hresult buf hbuf
      rcases hroom buf ((hmem buf).mp hbuf) with hfits | ⟨⟨packet, hcall⟩, -⟩
      · exact entering_eq_self_iff.mpr hfits
      · rw [hcall] at hresult
        cases hresult

/-! ### What goes to the controller -/

/-- What enters the ring of a buffer comes behind what was on its way, if the terminal driver
accepts all of it. -/
theorem line_put (s : Sending) {terminal : Terminal} {buf : List UInt8}
    (haccepts : s.data.tx.contents.length + min buf.length s.data.tx.room ≤ terminal.accepts) :
    (s.put terminal buf).line = s.line ++ buf.take s.data.tx.room := by
  have hstored := Ring.contents_fill_fst s.data.tx buf
  have hlength : (s.data.tx.fill buf).1.contents.length ≤ terminal.accepts := by
    rw [hstored, List.length_append, List.length_take, Nat.min_comm]
    exact haccepts
  have hkept := (Transmission.wakeup_line_iff { s.data with tx := (s.data.tx.fill buf).1 }
    s.accepted terminal).mpr hlength
  rw [line, line, List.append_assoc, ← hstored]
  exact hkept

/-- What enters the ring of the command that is sent comes behind what was on its way. -/
theorem line_step (s : Sending) {event : DriverEvent} (haccepts : s.AcceptsAll event) :
    (s.step event).line =
      s.line ++ (s.issued event.call).elim [] fun command ↦ command.take s.data.tx.room := by
  obtain ⟨call, terminal⟩ := event
  have hcall : ∀ call, (∀ command ∈ s.issued call,
        s.data.tx.contents.length + min command.length s.data.tx.room ≤ terminal.accepts) →
      ((s.effect call).puts.foldl (put terminal)
        { s with globals := (s.effect call).globals }).line =
      s.line ++ (s.issued call).elim [] fun command ↦ command.take s.data.tx.room := by
    intro call haccepts
    rw [puts_eq]
    cases hissued : s.issued call with
    | none => exact (List.append_nil _).symm
    | some command =>
      exact line_put { s with globals := (s.effect call).globals } (haccepts command hissued)
  cases call with
  | ioctl cmd arg => exact hcall (.ioctl cmd arg) haccepts
  | packet packet => exact hcall (.packet packet) haccepts
  | wakeup =>
    have hkept := (Transmission.wakeup_line_iff s.data s.accepted terminal).mpr haccepts
    rw [issued, Option.elim_none, List.append_nil]
    exact hkept

theorem wholeLine_step (h : s.WholeLine before) {event : DriverEvent}
    (haccepts : s.AcceptsAll event) (hroom : s.HasRoom event) :
    (s.step event).WholeLine before := by
  obtain ⟨commands, hcommands, hline⟩ := h
  cases hissued : s.issued event.call with
  | none =>
    refine ⟨commands, hcommands, ?_⟩
    rw [line_step s haccepts, hissued, Option.elim_none, List.append_nil, hline]
  | some command =>
    rcases hroom command hissued with hfits | ⟨-, hnone⟩
    · refine ⟨commands ++ [command], fun c hc ↦ ?_, ?_⟩
      · rcases List.mem_append.mp hc with hold | hnew
        · exact hcommands c hold
        · rw [List.mem_singleton.mp hnew]
          exact issued_command hissued
      · rw [line_step s haccepts, hissued, Option.elim_some, List.take_of_length_le hfits, hline,
          List.flatten_append, List.flatten_singleton, List.append_assoc]
    · refine ⟨commands, hcommands, ?_⟩
      rw [line_step s haccepts, hissued, Option.elim_some, hnone, List.take_zero,
        List.append_nil, hline]

/-- In the runs in which the terminal driver accepts all bytes in the ring at each wake-up, all
commands enter the ring as a whole or not at all, each ioctl that returns 0 has queued its command,
and only whole commands go to the controller, exactly if there is room for each command, or for no
byte of it where a packet makes the driver send it. -/
theorem everyStep_whole_iff (g : Globals) (data : TuxctlLdiscData) (events : List DriverEvent)
    (haccepts : EveryStep step AcceptsAll (start g data) events) :
    (EveryStep step Whole (start g data) events ∧
        EveryState step (WholeLine data.tx.contents) (start g data) events) ↔
      EveryStep step HasRoom (start g data) events := by
  have hstart : (start g data).WholeLine data.tx.contents :=
    ⟨[], fun _ hc ↦ absurd hc List.not_mem_nil, (List.append_nil _).symm⟩
  rw [everyStep_congr whole_iff]
  refine and_iff_left_of_imp fun hroom ↦ ?_
  have hboth : EveryStep step (fun s event ↦ s.AcceptsAll event ∧ s.HasRoom event)
      (start g data) events := everyStep_and.mpr ⟨haccepts, hroom⟩
  exact everyState_of_everyStep (fun _ _ h hstep ↦ wholeLine_step h hstep.1 hstep.2) hstart hboth

/-- A terminal driver that takes a whole command. -/
def roomyTerminal : Terminal := ⟨6, 6, le_rfl⟩

/-- The exact condition, for the modes and an LED value that fit. -/
theorem everyStep_whole_iff_ioctls :
    (EveryStep step Whole (start Globals.initial ⟨emptyRing, emptyRing⟩)
          [⟨.ioctl .tuxInit 0, roomyTerminal⟩, ⟨.ioctl .tuxSetLed 0, roomyTerminal⟩] ∧
        EveryState step (WholeLine emptyRing.contents)
          (start Globals.initial ⟨emptyRing, emptyRing⟩)
          [⟨.ioctl .tuxInit 0, roomyTerminal⟩, ⟨.ioctl .tuxSetLed 0, roomyTerminal⟩]) ↔
      EveryStep step HasRoom (start Globals.initial ⟨emptyRing, emptyRing⟩)
        [⟨.ioctl .tuxInit 0, roomyTerminal⟩, ⟨.ioctl .tuxSetLed 0, roomyTerminal⟩] := by
  refine everyStep_whole_iff Globals.initial ⟨emptyRing, emptyRing⟩ _ ⟨?_, ?_, trivial⟩
  all_goals
    intro command hcommand
    cases hcommand
    decide

/-- Of an LED_SET that finds room for one byte, only this byte goes to the controller. -/
theorem whole_not_always :
    ¬EveryStep step Whole
      (start Globals.initial ⟨emptyRing, ⟨fun _ ↦ 0, ⟨0, by decide⟩, ⟨62, by decide⟩⟩⟩)
      [⟨.ioctl .tuxSetLed 0, ⟨0, 0, le_rfl⟩⟩] := by
  intro hwhole
  rcases (whole_iff _ _).mp hwhole.1 (buffy 0) rfl with hfits | ⟨-, hnone⟩
  · exact absurd hfits (by decide)
  · exact absurd hnone (by decide)

/-- The commands have two or six bytes. -/
theorem WholeLine.even (h : s.WholeLine before) : Even (s.line.length + before.length) := by
  obtain ⟨commands, hcommands, hline⟩ := h
  have heven : Even commands.flatten.length := by
    clear hline
    induction commands with
    | nil => exact Even.zero
    | cons command rest ih =>
      have hcommand : Even command.length := by
        rcases hcommands command List.mem_cons_self with rfl | ⟨arg, rfl⟩
        · exact ⟨1, rfl⟩
        · exact ⟨3, rfl⟩
      rw [List.flatten_cons, List.length_append]
      exact hcommand.add (ih fun c hc ↦ hcommands c (List.mem_cons_of_mem command hc))
  rw [hline, List.length_append, Nat.add_right_comm]
  exact (Even.add_self _).add heven

/-- Of an LED_SET that has entered the ring as a whole, the byte is lost that `write` has been
handed beyond its room, and five bytes reach the controller. -/
theorem wholeLine_not_always :
    ¬EveryState step (WholeLine []) (start Globals.initial ⟨emptyRing, emptyRing⟩)
      [⟨.ioctl .tuxSetLed 0, ⟨3, 3, le_rfl⟩⟩, ⟨.wakeup, ⟨63, 63, le_rfl⟩⟩] := by
  intro hlines
  exact absurd hlines.last.even (by decide +kernel)

end Sending

end Sp18.TuxController
