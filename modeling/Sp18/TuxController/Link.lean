import Sp18.Foundation.StepSystem
import Sp18.TuxController.Ioctl

/-!
# The driver and the controller

The driver and the controller as two parties joined by two channels that keep the order. The
controller acknowledges each command that it processes. It may reboot at any time: it forgets its
LED value and its modes, loses any of the commands that are in flight to it, and sends a RESET.
`tuxctlLdiscPut_inOrder` says why the transmit ring and the line below it are such a channel as long
as they refuse no byte.

The controller at the end of the channel, `Link.settled`, is the controller once it has processed
the commands in flight. `Link.Synced` is the invariant. After a TUX_SET_LED the settled controller
has its LED value, unless a RESET is in flight to the driver or the driver waits for
acknowledgements to send the value again (`Link.Resending`). Each event keeps it
(`Link.synced_step`), so that it holds in every state of every run (`synced_run`), and with both
channels empty it says that the controller is up to date (`controller_upToDate`).
-/

set_option autoImplicit false
set_option relaxedAutoImplicit false

namespace Sp18.TuxController

open Foundation

/-- Where the ring refuses no byte, what `tuxctl_ldisc_put` is given comes behind the bytes that are
on their way. -/
theorem tuxctlLdiscPut_inOrder {data : TuxctlLdiscData} {room : ℤ} {buf : List UInt8}
    (h : (tuxctlLdiscPut data room buf).notWritten = 0) :
    (tuxctlLdiscPut data room buf).sent ++ (tuxctlLdiscPut data room buf).data.tx.contents =
      data.tx.contents ++ buf := by
  rw [tuxctlLdiscPut_notWritten, Nat.sub_eq_zero_iff_le] at h
  rw [tuxctlLdiscPut_line, List.take_of_length_le h]

/-- The segments of the four LEDs. -/
structure LedValue where
  led0 : UInt8
  led1 : UInt8
  led2 : UInt8
  led3 : UInt8
  deriving DecidableEq, Repr

/-- The commands to the controller that the driver uses. -/
inductive Command where
  | biocOn
  | ledUsr
  | ledSet (value : LedValue)
  deriving DecidableEq, Repr

/-- The commands that a buffer spells. LED_SET has a mask with the LEDs to set, here all four, and a
byte for each of them. -/
def commandsOf : List UInt8 → List Command
  | [] => []
  | opcode :: rest =>
    if opcode = mtcpBiocOn then .biocOn :: commandsOf rest
    else if opcode = mtcpLedUsr then .ledUsr :: commandsOf rest
    else if opcode = mtcpLedSet then
      match rest with
      | mask :: led0 :: led1 :: led2 :: led3 :: rest =>
        if mask &&& (0x0F : UInt8) = 0x0F then .ledSet ⟨led0, led1, led2, led3⟩ :: commandsOf rest
        else []
      | _ => []
    else commandsOf rest

/-- The controller: the LED value that it holds since its last reboot, and whether it has received
BIOC_ON and LED_USR since then. -/
structure Controller where
  led : Option LedValue
  biocOn : Bool
  ledUsr : Bool
  deriving DecidableEq, Repr

/-- The controller after a reboot. -/
def Controller.rebooted : Controller := { led := none, biocOn := false, ledUsr := false }

/-- The controller processes a command. -/
def Controller.process (c : Controller) : Command → Controller
  | .biocOn => { c with biocOn := true }
  | .ledUsr => { c with ledUsr := true }
  | .ledSet value => { c with led := some value }

/-- The packet that acknowledges a command. -/
def ackPacket : Packet := ⟨mtcpAck, 0x80, 0x80⟩

/-- The packet that the controller sends after a reboot. -/
def resetPacket : Packet := ⟨mtcpReset, 0x80, 0x80⟩

/-- The two parties and the two channels. `lastSetLed` is the argument of the last TUX_SET_LED, and
`initHandled` says that the driver has handled a TUX_INIT or a RESET. -/
structure Link where
  driver : Globals
  controller : Controller
  toController : List Command
  toDriver : List Packet
  lastSetLed : Option (BitVec 32)
  initHandled : Bool
  deriving DecidableEq

/-- The link when the module is loaded, with a controller in any state. -/
def Link.initial (controller : Controller) : Link :=
  { driver := Globals.initial
    controller := controller
    toController := []
    toDriver := []
    lastSetLed := none
    initHandled := false }

/-- What can happen next. -/
inductive LinkEvent where
  /-- An ioctl. -/
  | ioctl (cmd : TuxCommand) (arg : BitVec 32)
  /-- The driver handles the next packet. -/
  | packetDelivered
  /-- The controller processes the next command and acknowledges it. -/
  | commandDelivered
  /-- The buttons change, and the controller says so. -/
  | buttonEvent (buttons directions : UInt8)
  /-- The controller reboots. Of the commands in flight, those at these positions are lost. -/
  | reboot (lost : ℕ → Bool)

/-- The driver has run one of its functions. -/
def Link.act (s : Link) (effect : Effect) : Link :=
  { s with
    driver := effect.globals
    toController := s.toController ++ effect.puts.flatMap commandsOf }

/-- The elements that are not at the lost positions. -/
def keep {α : Type*} (lost : ℕ → Bool) (xs : List α) : List α :=
  (xs.zipIdx.filter fun entry ↦ !lost entry.2).map Prod.fst

/-- One event. An ioctl and the handling of a packet are taken to run as a whole: the locks around
them are commented out in the source, and nothing there keeps a packet from being handled in the
middle of an ioctl. -/
def Link.step (s : Link) : LinkEvent → Link
  | .ioctl cmd arg =>
    let noted : Link :=
      { s with
        lastSetLed := match cmd with | .tuxSetLed => some arg | _ => s.lastSetLed
        initHandled := match cmd with | .tuxInit => true | _ => s.initHandled }
    noted.act (tuxctlIoctl s.driver cmd arg).toEffect
  | .packetDelivered =>
    match s.toDriver with
    | [] => s
    | packet :: rest =>
      let noted : Link :=
        { s with toDriver := rest, initHandled := s.initHandled || packet.p0 == mtcpReset }
      noted.act (tuxctlHandlePacket s.driver packet)
  | .commandDelivered =>
    match s.toController with
    | [] => s
    | command :: rest =>
      { s with
        controller := s.controller.process command
        toController := rest
        toDriver := s.toDriver ++ [ackPacket] }
  | .buttonEvent buttons directions =>
    { s with toDriver := s.toDriver ++ [⟨mtcpBiocEvent, buttons, directions⟩] }
  | .reboot lost =>
    { s with
      controller := Controller.rebooted
      toController := keep lost s.toController
      toDriver := s.toDriver ++ [resetPacket] }

/-- The LED value that `tuxctl_set_led` sends for an argument. -/
def ledValue (arg : BitVec 32) : LedValue :=
  ⟨ledByte arg 0, ledByte arg 1, ledByte arg 2, ledByte arg 3⟩

theorem commandsOf_init : commandsOf [mtcpBiocOn, mtcpLedUsr] = [.biocOn, .ledUsr] := by
  decide

theorem commandsOf_buffy (arg : BitVec 32) : commandsOf (buffy arg) = [.ledSet (ledValue arg)] := by
  have hmask : (0xFF : UInt8) &&& (0x0F : UInt8) = 0x0F := by decide
  have hbiocOn : mtcpLedSet ≠ mtcpBiocOn := by decide
  have hledUsr : mtcpLedSet ≠ mtcpLedUsr := by decide
  rw [buffy, commandsOf, if_neg hbiocOn, if_neg hledUsr, if_pos rfl, if_pos hmask]
  rfl

namespace Link

variable (s : Link)

/-- The controller once it has processed the commands in flight. -/
def settled : Controller := s.toController.foldl Controller.process s.controller

/-- The number of acknowledgements that the driver has to expect: one for each command in flight,
and those in flight themselves. -/
def outstanding : ℕ := s.toController.length + s.toDriver.countP fun packet ↦ packet.p0 == mtcpAck

/-- A RESET is in flight to the driver. -/
def ResetInFlight : Prop := ∃ packet ∈ s.toDriver, packet.p0 = mtcpReset

/-- The LED value that the driver remembers reaches the controller. -/
def LedSettled : Prop := s.settled.led = some (ledValue s.driver.reset)

/-- The driver waits for acknowledgements to send the LED value again, and they will come. -/
structure Resending : Prop where
  resend : s.driver.resend = 1
  pos : 0 < s.driver.ack
  le_two : s.driver.ack ≤ 2
  le_outstanding : s.driver.ack ≤ s.outstanding

/-- The LED value reaches the controller, now or after a reset. -/
def LedFollows : Prop := s.ResetInFlight ∨ s.LedSettled ∨ s.Resending

/-- BIOC_ON and LED_USR reach the controller, now or after a reset. -/
def ModesFollow : Prop :=
  s.ResetInFlight ∨ s.settled.biocOn = true ∧ s.settled.ledUsr = true

/-- The invariant of the protocol. -/
structure Synced : Prop where
  flag : s.driver.flag = 0
  reset : ∀ arg, s.lastSetLed = some arg → s.driver.reset = arg
  led : s.lastSetLed ≠ none → s.LedFollows
  modes : s.initHandled = true → s.ModesFollow

variable {s}

section Act

theorem settled_act (effect : Effect) :
    (s.act effect).settled =
      (effect.puts.flatMap commandsOf).foldl Controller.process s.settled :=
  List.foldl_append

theorem settled_act_of_none {effect : Effect} (h : effect.puts = []) :
    (s.act effect).settled = s.settled := by
  rw [settled_act, h]
  rfl

theorem settled_act_of_init {effect : Effect} (h : effect.puts = [[mtcpBiocOn, mtcpLedUsr]]) :
    (s.act effect).settled = { s.settled with biocOn := true, ledUsr := true } := by
  rw [settled_act, h, List.flatMap_singleton, commandsOf_init]
  rfl

theorem settled_act_of_setLed {effect : Effect} {arg : BitVec 32} (h : effect.puts = [buffy arg]) :
    (s.act effect).settled = { s.settled with led := some (ledValue arg) } := by
  rw [settled_act, h, List.flatMap_singleton, commandsOf_buffy]
  rfl

theorem outstanding_act (effect : Effect) :
    (s.act effect).outstanding = s.outstanding + (effect.puts.flatMap commandsOf).length := by
  simp only [outstanding, act, List.length_append]
  omega

theorem outstanding_act_of_init {effect : Effect} (h : effect.puts = [[mtcpBiocOn, mtcpLedUsr]]) :
    (s.act effect).outstanding = s.outstanding + 2 := by
  rw [outstanding_act, h, List.flatMap_singleton, commandsOf_init]
  rfl

end Act

section Ioctls

/-- A TUX_INIT restarts the count of acknowledgements with the two that its commands will get. -/
theorem synced_tuxInit (h : s.Synced) (arg : BitVec 32) :
    (s.step (.ioctl .tuxInit arg)).Synced := by
  have hsettled : (s.step (.ioctl .tuxInit arg)).settled =
      { s.settled with biocOn := true, ledUsr := true } := settled_act_of_init rfl
  have houtstanding : (s.step (.ioctl .tuxInit arg)).outstanding = s.outstanding + 2 :=
    outstanding_act_of_init rfl
  refine ⟨rfl, h.reset, ?_, fun _ ↦ Or.inr ?_⟩
  · intro hset
    rcases h.led hset with hreset | hled | hresend
    · exact Or.inl hreset
    · refine Or.inr (Or.inl ?_)
      rw [LedSettled, hsettled]
      exact hled
    · refine Or.inr (Or.inr ⟨hresend.resend, zero_lt_two, le_rfl, ?_⟩)
      rw [houtstanding, Nat.cast_add]
      exact Int.le_add_of_nonneg_left (Int.natCast_nonneg _)
  · rw [hsettled]
    exact ⟨rfl, rfl⟩

/-- A TUX_SET_LED sends the value that the controller shall hold. -/
theorem synced_tuxSetLed (h : s.Synced) (arg : BitVec 32) :
    (s.step (.ioctl .tuxSetLed arg)).Synced := by
  have hflag : ¬s.driver.flag = 1 := by
    rw [h.flag]
    exact Int.zero_ne_one
  have hstep : s.step (.ioctl .tuxSetLed arg) =
      act { s with lastSetLed := some arg }
        { globals := { s.driver with flag := 0, reset := arg, ack := i32 (s.driver.ack + 1) }
          puts := [buffy arg] } := by
    simp only [step, tuxctlIoctl, if_neg hflag]
    rfl
  have hsettled : (s.step (.ioctl .tuxSetLed arg)).settled =
      { s.settled with led := some (ledValue arg) } := by
    rw [hstep]
    exact settled_act_of_setLed rfl
  refine ⟨?_, ?_, fun _ ↦ Or.inr (Or.inl ?_), ?_⟩
  · rw [hstep]
    rfl
  · intro last hlast
    rw [hstep] at hlast ⊢
    exact Option.some.inj hlast
  · rw [LedSettled, hsettled, hstep]
    rfl
  · intro hinit
    rw [ModesFollow, hsettled]
    rw [hstep] at hinit ⊢
    exact h.modes hinit

/-- An ioctl that sends nothing leaves the link as it is. -/
theorem synced_ioctl (h : s.Synced) (cmd : TuxCommand) (arg : BitVec 32) :
    (s.step (.ioctl cmd arg)).Synced := by
  cases cmd with
  | tuxInit => exact synced_tuxInit h arg
  | tuxSetLed => exact synced_tuxSetLed h arg
  | tuxButtons =>
    have hstep : s.step (.ioctl .tuxButtons arg) = s := by
      simp only [step, tuxctlIoctl, act]
      split_ifs <;> simp only [List.flatMap_nil, List.append_nil]
    rw [hstep]
    exact h
  | unknown =>
    have hstep : s.step (.ioctl .unknown arg) = s := by
      simp only [step, tuxctlIoctl, act, List.flatMap_nil, List.append_nil]
    rw [hstep]
    exact h

end Ioctls

section Packets

variable {packet : Packet} {rest : List Packet}

theorem step_packetDelivered (hdriver : s.toDriver = packet :: rest) :
    s.step .packetDelivered =
      act { s with toDriver := rest, initHandled := s.initHandled || packet.p0 == mtcpReset }
        (tuxctlHandlePacket s.driver packet) := by
  simp only [step, hdriver]

theorem step_packetDelivered_of_ne (hdriver : s.toDriver = packet :: rest)
    (hne : packet.p0 ≠ mtcpReset) :
    s.step .packetDelivered =
      act { s with toDriver := rest } (tuxctlHandlePacket s.driver packet) := by
  rw [step_packetDelivered hdriver, beq_eq_false_iff_ne.mpr hne, Bool.or_false]

/-- A RESET that is still in flight is behind the packet that is delivered. -/
theorem resetInFlight_rest (hdriver : s.toDriver = packet :: rest) (hne : packet.p0 ≠ mtcpReset)
    (h : s.ResetInFlight) : ∃ later ∈ rest, later.p0 = mtcpReset := by
  obtain ⟨later, hmem, hlater⟩ := h
  rw [hdriver, List.mem_cons] at hmem
  rcases hmem with rfl | hmem
  · exact absurd hlater hne
  · exact ⟨later, hmem, hlater⟩

theorem outstanding_eq (hdriver : s.toDriver = packet :: rest) :
    s.outstanding =
      outstanding { s with toDriver := rest } + if packet.p0 = mtcpAck then 1 else 0 := by
  simp only [outstanding, hdriver, List.countP_cons, beq_iff_eq, Nat.add_assoc]

/-- A packet upon which the driver sends nothing, where it goes on waiting if it has waited. -/
theorem synced_of_quiet (h : s.Synced) (hdriver : s.toDriver = packet :: rest)
    (hne : packet.p0 ≠ mtcpReset) {effect : Effect} (hputs : effect.puts = [])
    (hflag : effect.globals.flag = 0) (hreset : effect.globals.reset = s.driver.reset)
    (hwaits : s.Resending → (act { s with toDriver := rest } effect).Resending) :
    (act { s with toDriver := rest } effect).Synced := by
  have hsettled : (act { s with toDriver := rest } effect).settled = s.settled :=
    settled_act_of_none hputs
  refine ⟨hflag, ?_, ?_, ?_⟩
  · intro arg harg
    exact hreset.trans (h.reset arg harg)
  · intro hset
    rcases h.led hset with hinFlight | hled | hresend
    · exact Or.inl (resetInFlight_rest hdriver hne hinFlight)
    · refine Or.inr (Or.inl ?_)
      rw [LedSettled, hsettled]
      exact hled.trans (congrArg (some ∘ ledValue) hreset.symm)
    · exact Or.inr (Or.inr (hwaits hresend))
  · intro hinit
    rcases h.modes hinit with hinFlight | hmodes
    · exact Or.inl (resetInFlight_rest hdriver hne hinFlight)
    · refine Or.inr ?_
      rw [hsettled]
      exact hmodes

theorem handlePacket_reset (g : Globals) (hreset : packet.p0 = mtcpReset) :
    tuxctlHandlePacket g packet =
      { globals := { g with ack := 2, resend := 1 }, puts := [[mtcpBiocOn, mtcpLedUsr]] } := by
  have hack : mtcpReset ≠ mtcpAck := by decide
  have hevent : mtcpReset ≠ mtcpBiocEvent := by decide
  rw [tuxctlHandlePacket, hreset, if_neg hack, if_neg hevent, if_pos rfl]
  rfl

/-- A RESET makes the driver send the modes, and the LED value once they are acknowledged. -/
theorem synced_reset (h : s.Synced) (hdriver : s.toDriver = packet :: rest)
    (hreset : packet.p0 = mtcpReset) : (s.step .packetDelivered).Synced := by
  rw [step_packetDelivered hdriver, handlePacket_reset s.driver hreset]
  refine ⟨h.flag, h.reset, fun _ ↦ ?_, fun _ ↦ ?_⟩
  · refine Or.inr (Or.inr ⟨rfl, zero_lt_two, le_rfl, ?_⟩)
    rw [outstanding_act_of_init rfl, Nat.cast_add]
    exact Int.le_add_of_nonneg_left (Int.natCast_nonneg _)
  · refine Or.inr ?_
    rw [settled_act_of_init rfl]
    exact ⟨rfl, rfl⟩

/-- The driver's count after an acknowledgement. -/
def ackedCount (ack : ℤ) : ℤ := if 0 < ack then i32 (ack - 1) else ack

theorem handlePacket_lastAck {g : Globals} (hack : packet.p0 = mtcpAck)
    (hlast : ackedCount g.ack = 0 ∧ g.resend = 1) :
    tuxctlHandlePacket g packet =
      { globals := { g with flag := 0, ack := ackedCount g.ack, resend := 0 }
        puts := [buffy g.reset] } := by
  rw [tuxctlHandlePacket, if_pos hack]
  exact if_pos hlast

theorem handlePacket_ack {g : Globals} (hack : packet.p0 = mtcpAck)
    (hmore : ¬(ackedCount g.ack = 0 ∧ g.resend = 1)) :
    tuxctlHandlePacket g packet =
      { globals := { g with flag := 0, ack := ackedCount g.ack }, puts := [] } := by
  rw [tuxctlHandlePacket, if_pos hack]
  exact if_neg hmore

/-- Upon the last acknowledgement that the driver has waited for, it sends the LED value again. -/
theorem synced_lastAck (h : s.Synced) (hdriver : s.toDriver = packet :: rest)
    (hack : packet.p0 = mtcpAck) (hne : packet.p0 ≠ mtcpReset)
    (hlast : ackedCount s.driver.ack = 0 ∧ s.driver.resend = 1) :
    (s.step .packetDelivered).Synced := by
  rw [step_packetDelivered_of_ne hdriver hne, handlePacket_lastAck hack hlast]
  refine ⟨rfl, h.reset, fun _ ↦ Or.inr (Or.inl ?_), ?_⟩
  · rw [LedSettled, settled_act_of_setLed rfl]
    rfl
  · intro hinit
    rcases h.modes hinit with hinFlight | hmodes
    · exact Or.inl (resetInFlight_rest hdriver hne hinFlight)
    · refine Or.inr ?_
      rw [settled_act_of_setLed rfl]
      exact hmodes

/-- While the driver waits for more than one acknowledgement, each one leaves it fewer to wait
for. -/
theorem resending_ack (hdriver : s.toDriver = packet :: rest) (hack : packet.p0 = mtcpAck)
    (hmore : ¬(ackedCount s.driver.ack = 0 ∧ s.driver.resend = 1)) (h : s.Resending)
    {effect : Effect} (hputs : effect.puts = [])
    (hresend : effect.globals.resend = s.driver.resend)
    (hcount : effect.globals.ack = ackedCount s.driver.ack) :
    (act { s with toDriver := rest } effect).Resending := by
  obtain ⟨hresending, hpos, htwo, hout⟩ := h
  have hacked : ackedCount s.driver.ack = s.driver.ack - 1 := by
    rw [ackedCount, if_pos hpos]
    exact i32_of_range (by omega) (by omega)
  have hnonzero : s.driver.ack - 1 ≠ 0 := fun hzero ↦ hmore ⟨hacked.trans hzero, hresending⟩
  have hfewer := outstanding_eq hdriver
  rw [if_pos hack] at hfewer
  have hsame : (act { s with toDriver := rest } effect).outstanding =
      outstanding { s with toDriver := rest } := by
    rw [outstanding_act, hputs]
    rfl
  refine ⟨hresend.trans hresending, ?_, ?_, ?_⟩
  · change 0 < effect.globals.ack
    omega
  · change effect.globals.ack ≤ 2
    omega
  · change effect.globals.ack ≤ _
    omega

theorem synced_ack (h : s.Synced) (hdriver : s.toDriver = packet :: rest)
    (hack : packet.p0 = mtcpAck) : (s.step .packetDelivered).Synced := by
  have hne : packet.p0 ≠ mtcpReset := by
    rw [hack]
    decide
  by_cases hlast : ackedCount s.driver.ack = 0 ∧ s.driver.resend = 1
  · exact synced_lastAck h hdriver hack hne hlast
  · rw [step_packetDelivered_of_ne hdriver hne, handlePacket_ack hack hlast]
    exact synced_of_quiet h hdriver hne rfl rfl rfl fun hresend ↦
      resending_ack hdriver hack hlast hresend rfl rfl rfl

/-- Upon any other packet the driver sends nothing and counts nothing. -/
theorem handlePacket_other {g : Globals} (hack : packet.p0 ≠ mtcpAck) (hne : packet.p0 ≠ mtcpReset)
    (hflag : g.flag = 0) :
    ∃ arr, tuxctlHandlePacket g packet = { globals := { g with arr := arr }, puts := [] } := by
  rw [tuxctlHandlePacket, if_neg hack]
  split_ifs
  · refine ⟨(packet.p1, packet.p2), ?_⟩
    rw [hflag]
  · exact ⟨g.arr, rfl⟩

theorem synced_packetDelivered (h : s.Synced) : (s.step .packetDelivered).Synced := by
  cases hdriver : s.toDriver with
  | nil =>
    have hstep : s.step .packetDelivered = s := by simp only [step, hdriver]
    rw [hstep]
    exact h
  | cons packet rest =>
    by_cases hack : packet.p0 = mtcpAck
    · exact synced_ack h hdriver hack
    by_cases hreset : packet.p0 = mtcpReset
    · exact synced_reset h hdriver hreset
    obtain ⟨arr, heffect⟩ := handlePacket_other hack hreset h.flag
    rw [step_packetDelivered_of_ne hdriver hreset, heffect]
    refine synced_of_quiet h hdriver hreset rfl h.flag rfl fun hresend ↦ ?_
    have hsame : outstanding (act { s with toDriver := rest } ⟨{ s.driver with arr := arr }, []⟩) =
        s.outstanding := by
      rw [outstanding_act, outstanding_eq hdriver, if_neg hack]
      rfl
    refine ⟨hresend.resend, hresend.pos, hresend.le_two, ?_⟩
    rw [hsame]
    exact hresend.le_outstanding

end Packets

section Controllers

/-- A step that the driver has no part in keeps the invariant if it takes nothing out of flight. -/
theorem synced_of_same {t : Link} (h : s.Synced) (hdriver : t.driver = s.driver)
    (hlast : t.lastSetLed = s.lastSetLed) (hinit : t.initHandled = s.initHandled)
    (hinFlight : s.ResetInFlight → t.ResetInFlight) (hsettled : t.settled = s.settled)
    (houtstanding : t.outstanding = s.outstanding) : t.Synced := by
  refine ⟨?_, ?_, ?_, ?_⟩
  · rw [hdriver]
    exact h.flag
  · rw [hdriver, hlast]
    exact h.reset
  · intro hset
    rcases h.led (hlast ▸ hset) with hreset | hled | hresend
    · exact Or.inl (hinFlight hreset)
    · refine Or.inr (Or.inl ?_)
      rw [LedSettled, hsettled, hdriver]
      exact hled
    · refine Or.inr (Or.inr ⟨?_, ?_, ?_, ?_⟩)
      · exact hdriver ▸ hresend.resend
      · exact hdriver ▸ hresend.pos
      · exact hdriver ▸ hresend.le_two
      · rw [hdriver, houtstanding]
        exact hresend.le_outstanding
  · intro hhandled
    rcases h.modes (hinit ▸ hhandled) with hreset | hmodes
    · exact Or.inl (hinFlight hreset)
    · refine Or.inr ?_
      rw [hsettled]
      exact hmodes

/-- What is in flight stays in flight when a packet is sent. -/
theorem resetInFlight_append (h : s.ResetInFlight) (sent : List Packet) :
    ∃ packet ∈ s.toDriver ++ sent, packet.p0 = mtcpReset := by
  obtain ⟨packet, hmem, hreset⟩ := h
  exact ⟨packet, List.mem_append_left sent hmem, hreset⟩

/-- The controller acknowledges the command that it processes, so that the driver has as many
acknowledgements to expect as before. -/
theorem synced_commandDelivered (h : s.Synced) : (s.step .commandDelivered).Synced := by
  cases hcontroller : s.toController with
  | nil =>
    have hstep : s.step .commandDelivered = s := by simp only [step, hcontroller]
    rw [hstep]
    exact h
  | cons command rest =>
    have hstep : s.step .commandDelivered =
        { s with
          controller := s.controller.process command
          toController := rest
          toDriver := s.toDriver ++ [ackPacket] } := by
      simp only [step, hcontroller]
    rw [hstep]
    refine synced_of_same h rfl rfl rfl (fun hreset ↦ resetInFlight_append hreset _) ?_ ?_
    · rw [settled, settled, hcontroller, List.foldl_cons]
    · have hone : [ackPacket].countP (fun packet ↦ packet.p0 == mtcpAck) = 1 := by decide
      rw [outstanding, outstanding, hcontroller, List.length_cons, List.countP_append, hone]
      change rest.length + (_ + 1) = _
      omega

/-- A button event is no acknowledgement. -/
theorem synced_buttonEvent (h : s.Synced) (buttons directions : UInt8) :
    (s.step (.buttonEvent buttons directions)).Synced := by
  refine synced_of_same h rfl rfl rfl (fun hreset ↦ resetInFlight_append hreset _) rfl ?_
  have hevent : ¬(mtcpBiocEvent == mtcpAck) = true := by decide
  change s.toController.length + (s.toDriver ++ [_]).countP _ = _
  rw [List.countP_append, List.countP_singleton, if_neg hevent]
  rfl

/-- After a reboot a RESET is in flight. -/
theorem synced_reboot (h : s.Synced) (lost : ℕ → Bool) : (s.step (.reboot lost)).Synced := by
  have hinFlight : (s.step (.reboot lost)).ResetInFlight :=
    ⟨resetPacket, List.mem_append_right _ (List.mem_singleton_self _), rfl⟩
  exact ⟨h.flag, h.reset, fun _ ↦ Or.inl hinFlight, fun _ ↦ Or.inl hinFlight⟩

end Controllers

theorem synced_step (h : s.Synced) (event : LinkEvent) : (s.step event).Synced := by
  cases event with
  | ioctl cmd arg => exact synced_ioctl h cmd arg
  | packetDelivered => exact synced_packetDelivered h
  | commandDelivered => exact synced_commandDelivered h
  | buttonEvent buttons directions => exact synced_buttonEvent h buttons directions
  | reboot lost => exact synced_reboot h lost

theorem synced_initial (controller : Controller) : (initial controller).Synced :=
  ⟨rfl, fun _ hnone ↦ absurd hnone (Option.some_ne_none _).symm, fun hnone ↦ absurd rfl hnone,
    fun hnone ↦ absurd hnone Bool.false_ne_true⟩

theorem synced_run (controller : Controller) (events : List LinkEvent) :
    (run Link.step (initial controller) events).Synced := by
  have hstep : ∀ (s : Link) (event : LinkEvent), s.Synced → (s.step event).Synced :=
    fun _ event h ↦ synced_step h event
  exact (everyState_of_invariant hstep (synced_initial controller) events).last

/-- With both channels empty, the controller is settled. -/
theorem settled_of_empty (h : s.toController = []) : s.settled = s.controller := by
  rw [settled, h]
  rfl

theorem not_resetInFlight_of_empty (h : s.toDriver = []) : ¬s.ResetInFlight := by
  rintro ⟨packet, hmem, -⟩
  rw [h] at hmem
  cases hmem

theorem not_resending_of_empty (hcontroller : s.toController = []) (hdriver : s.toDriver = []) :
    ¬s.Resending := by
  intro hresend
  have hpos := hresend.pos
  have hle := hresend.le_outstanding
  rw [outstanding, hcontroller, hdriver] at hle
  exact absurd (lt_of_lt_of_le hpos hle) (lt_irrefl _)

end Link

/-- Whatever happens, and however often the controller reboots: with nothing in flight, the
controller holds the LED value of the last TUX_SET_LED, and it has received BIOC_ON and LED_USR
since its last reboot if the driver has ever handled a TUX_INIT or a RESET. -/
theorem controller_upToDate (controller : Controller) (events : List LinkEvent) :
    let s := run Link.step (Link.initial controller) events
    s.toController = [] → s.toDriver = [] →
      (∀ arg, s.lastSetLed = some arg → s.controller.led = some (ledValue arg)) ∧
        (s.initHandled = true → s.controller.biocOn = true ∧ s.controller.ledUsr = true) := by
  intro s hcontroller hdriver
  have hsynced : s.Synced := Link.synced_run controller events
  have hsettled := Link.settled_of_empty hcontroller
  refine ⟨fun arg harg ↦ ?_, fun hinit ↦ ?_⟩
  · have hset : s.lastSetLed ≠ none := by
      rw [harg]
      exact Option.some_ne_none arg
    rcases hsynced.led hset with hreset | hled | hresend
    · exact absurd hreset (Link.not_resetInFlight_of_empty hdriver)
    · rw [Link.LedSettled, hsettled, hsynced.reset arg harg] at hled
      exact hled
    · exact absurd hresend (Link.not_resending_of_empty hcontroller hdriver)
  · rcases hsynced.modes hinit with hreset | hmodes
    · exact absurd hreset (Link.not_resetInFlight_of_empty hdriver)
    · rwa [hsettled] at hmodes

/-- The controller reboots while the LED value is on its way, which is lost, and holds it in the
end. -/
theorem controller_upToDate_reboot :
    let events : List LinkEvent :=
      [.ioctl .tuxSetLed 0x000F1234, .reboot fun _ ↦ true, .packetDelivered, .commandDelivered,
        .commandDelivered, .packetDelivered, .packetDelivered, .commandDelivered, .packetDelivered]
    let s := run Link.step (Link.initial Controller.rebooted) events
    s.toController = [] ∧ s.toDriver = [] ∧ s.lastSetLed = some 0x000F1234 ∧
      s.controller.led = some (ledValue 0x000F1234) ∧
      s.controller.biocOn = true ∧ s.controller.ledUsr = true := by
  intro events s
  have hcontroller : s.toController = [] := by decide +kernel
  have hdriver : s.toDriver = [] := by decide +kernel
  have hset : s.lastSetLed = some 0x000F1234 := by decide +kernel
  have hinit : s.initHandled = true := by decide +kernel
  obtain ⟨hled, hmodes⟩ := controller_upToDate Controller.rebooted events hcontroller hdriver
  exact ⟨hcontroller, hdriver, hset, hled _ hset, hmodes hinit⟩

end Sp18.TuxController
