import Sp18.Foundation.CInt
import Sp18.TuxController.LineDiscipline

/-!
# The driver of the Tux controller

`tuxctl-ioctl.c`: the packet handler, the ioctls and the commands that they send. The functions
take the global variables, and return them with the buffers that they pass to `tuxctl_ldisc_put`,
in order. No caller looks at what `tuxctl_ldisc_put` returns.
-/

set_option autoImplicit false
set_option relaxedAutoImplicit false

namespace Sp18.TuxController

open Foundation

/-- `MTCP_RESP(n)` -/
def mtcpResp (n : UInt8) : UInt8 :=
  (n &&& (7 : UInt8)) ||| ((n &&& (0x18 : UInt8)) <<< (1 : UInt8)) ||| (0x40 : UInt8)

/-- `MTCP_ACK` -/
def mtcpAck : UInt8 := mtcpResp 0x0

/-- `MTCP_BIOC_EVENT` -/
def mtcpBiocEvent : UInt8 := mtcpResp 0x1

/-- `MTCP_RESET` -/
def mtcpReset : UInt8 := mtcpResp 0x6

/-- `MTCP_CMD(c)` -/
def mtcpCmd (c : UInt8) : UInt8 := 0xC0 ||| c

/-- `MTCP_BIOC_ON` -/
def mtcpBiocOn : UInt8 := mtcpCmd 0x3

/-- `MTCP_LED_SET` -/
def mtcpLedSet : UInt8 := mtcpCmd 0x6

/-- `MTCP_LED_USR` -/
def mtcpLedUsr : UInt8 := mtcpCmd 0x8

/-- The global variables of the driver. `arr` has the two bytes of the last button event. -/
structure Globals where
  flag : ℤ
  ack : ℤ
  resend : ℤ
  arr : UInt8 × UInt8
  reset : BitVec 32
  deriving DecidableEq

/-- The global variables when the module is loaded. -/
def Globals.initial : Globals := { flag := 0, ack := 0, resend := 0, arr := (0, 0), reset := 0 }

/-- What a function of the driver does: the global variables after it, and the buffers that it
passes to `tuxctl_ldisc_put`. -/
structure Effect where
  globals : Globals
  puts : List (List UInt8)

/-- `tuxctl_init` -/
def tuxctlInit (g : Globals) : Effect :=
  { globals := { g with ack := 2 }, puts := [[mtcpBiocOn, mtcpLedUsr]] }

/-- `disp`, the segments of each digit. -/
def disp : Vector UInt8 16 :=
  #v[0xE7, 0x06, 0xCB, 0x8F, 0x2E, 0xAD, 0xED, 0x86, 0xEF, 0xAE, 0xEE, 0x6D, 0xE1, 0x4F, 0xE9, 0xE8]

/-- `buffy[idx+2]` at the end of iteration `idx` of the loop of `tuxctl_set_led`. -/
def ledByte (arg : BitVec 32) (idx : ℕ) : UInt8 :=
  let segments := disp.get ((arg >>> (idx * 4)).truncate 4).toFin
  if (arg >>> (idx + 24)) &&& 1 = 1 ∧ (arg >>> (idx + 16)) &&& 1 = 1 then segments + 0x10
  else if (arg >>> (idx + 16)) &&& 1 ≠ 1 then 0
  else segments

/-- `buffy`, the command that `tuxctl_set_led` sends. -/
def buffy (arg : BitVec 32) : List UInt8 :=
  [mtcpLedSet, 0xFF, ledByte arg 0, ledByte arg 1, ledByte arg 2, ledByte arg 3]

/-- `tuxctl_set_led` -/
def tuxctlSetLed (g : Globals) (arg : BitVec 32) : Effect :=
  { globals := { g with reset := arg }, puts := [buffy arg] }

/-- `tuxctl_handle_packet` -/
def tuxctlHandlePacket (g : Globals) (packet : Packet) : Effect :=
  if packet.p0 = mtcpAck then
    let acked : Globals := { g with flag := 0, ack := if 0 < g.ack then i32 (g.ack - 1) else g.ack }
    if acked.ack = 0 ∧ acked.resend = 1 then
      let resent := tuxctlSetLed acked acked.reset
      { resent with globals := { resent.globals with resend := 0 } }
    else
      { globals := acked, puts := [] }
  else if packet.p0 = mtcpBiocEvent then
    -- the flag is up only while the two bytes are stored
    { globals := { g with arr := (packet.p1, packet.p2), flag := 0 }, puts := [] }
  else if packet.p0 = mtcpReset then
    let init := tuxctlInit g
    { init with globals := { init.globals with resend := 1 } }
  else
    { globals := g, puts := [] }

/-- The commands that `tuxctl_ioctl` knows, and all others. -/
inductive TuxCommand where
  | tuxInit
  | tuxButtons
  | tuxSetLed
  | unknown
  deriving DecidableEq, Repr

/-- `EINVAL` -/
def einval : ℤ := 22

/-- The byte that `tuxctl_buttons` copies to the user. -/
def tuxctlButtons (g : Globals) : UInt8 :=
  ((0xF : UInt8) &&& g.arr.1) ||| (((0xF : UInt8) &&& g.arr.2) <<< (4 : UInt8))

/-- What an ioctl does: its effect, what it returns, and the byte that it copies to the user. -/
structure IoctlEffect extends Effect where
  result : ℤ
  copied : Option UInt8

/-- `tuxctl_ioctl` -/
def tuxctlIoctl (g : Globals) (cmd : TuxCommand) (arg : BitVec 32) : IoctlEffect :=
  match cmd with
  | .tuxInit => { tuxctlInit { g with flag := 0 } with result := 0, copied := none }
  | .tuxButtons =>
    if arg = 0 then { globals := g, puts := [], result := -einval, copied := none }
    else { globals := g, puts := [], result := 0, copied := some (tuxctlButtons g) }
  | .tuxSetLed =>
    if g.flag = 1 then { globals := g, puts := [], result := -einval, copied := none }
    else
      let set := tuxctlSetLed { g with flag := 0 } arg
      { puts := set.puts
        globals := { set.globals with ack := i32 (set.globals.ack + 1) }
        result := 0
        copied := none }
  | .unknown => { globals := g, puts := [], result := -einval, copied := none }

end Sp18.TuxController
