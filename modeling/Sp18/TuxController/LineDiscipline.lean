import Sp18.Foundation.Framing
import Sp18.Foundation.Ring
import Mathlib.Algebra.Order.Ring.Int

/-!
# The line discipline of the Tux controller

`tuxctl-ld.c`: the rings that bytes from and to the controller go through, and the callback that
finds the packets among the received bytes. What the callback passes to `tuxctl_handle_packet` is
returned as a list, since the packet handler touches neither the receive ring nor the bytes that the
callback keeps. Of the terminal driver below, `write_room` is an argument, and the bytes handed to
`write` are returned.

Each function is one step here. The source takes its lock for the loops over the rings only: a
wake-up asks for `write_room` before it takes the lock and calls `write` after it has released it,
and `tuxctl_ldisc_put` releases it before it wakes the line up. That no other call comes in between
is an assumption.
-/

set_option autoImplicit false
set_option relaxedAutoImplicit false

namespace Sp18.TuxController

open Foundation

/-- `TUXCTL_BUFSIZE` -/
def tuxctlBufsize : ℕ := 64

theorem tuxctlBufsize_pos : 0 < tuxctlBufsize := by
  decide

/-- A ring of `tuxctl_ldisc_data_t`: the buffer with its start and its end index. -/
abbrev ByteRing : Type := Ring tuxctlBufsize UInt8

/-- `tuxctl_ldisc_data_t`, without the magic number that nothing checks. -/
structure TuxctlLdiscData where
  rx : ByteRing
  tx : ByteRing

/-- A packet from the controller, as `tuxctl_handle_packet` gets it. -/
structure Packet where
  p0 : UInt8
  p1 : UInt8
  p2 : UInt8
  deriving DecidableEq, Repr

/-- The framing bits of a packet: the top bit of the first byte is clear, those of the other two
are set. -/
def framed (p0 p1 p2 : UInt8) : Bool :=
  p0 &&& 0x80 == 0 && p1 &&& 0x80 != 0 && p2 &&& 0x80 != 0

/-- The state of the module: `tty->disc_data`, which is null while the line is closed, and the
first `n_saved` bytes of the static array `saved`. -/
structure LineDiscipline where
  discData : Option TuxctlLdiscData
  saved : List UInt8

/-- `tuxctl_ldisc_open`, where the allocation succeeds and the memory it gives holds any bytes. -/
def tuxctlLdiscOpen (ld : LineDiscipline) (rxBuf txBuf : Fin tuxctlBufsize → UInt8) :
    LineDiscipline :=
  let first : Fin tuxctlBufsize := ⟨0, tuxctlBufsize_pos⟩
  { ld with discData := some ⟨⟨rxBuf, first, first⟩, ⟨txBuf, first, first⟩⟩ }

/-- `tuxctl_ldisc_get` returns the bytes that it has put into the buffer. -/
def tuxctlLdiscGet (data : TuxctlLdiscData) (n : ℕ) : TuxctlLdiscData × List UInt8 :=
  ({ data with rx := (data.rx.drain n).1 }, (data.rx.drain n).2)

/-- The loop of `tuxctl_ldisc_data_callback` from index `i` on: the packets that it handles, and the
index at which it ends. -/
def callbackLoop (packet : List UInt8) : ℕ → ℕ → List Packet × ℕ
  | 0, i => ([], i)
  | fuel + 1, i =>
    if h : i + 2 < packet.length then
      if framed packet[i] packet[i + 1] packet[i + 2] then
        (⟨packet[i], packet[i + 1], packet[i + 2]⟩ :: (callbackLoop packet fuel (i + 3)).1,
          (callbackLoop packet fuel (i + 3)).2)
      else
        callbackLoop packet fuel (i + 1)
    else
      ([], i)

/-- What `tuxctl_ldisc_data_callback` does: the line discipline after it, the bytes that it has
taken from the ring, and the packets that it has handled. -/
structure Callback where
  ld : LineDiscipline
  taken : List UInt8
  handled : List Packet

/-- `tuxctl_ldisc_data_callback`. The index goes up by one at least, so that the loop is over before
as many iterations as there are bytes in `packet[12]`. -/
def tuxctlLdiscDataCallback (data : TuxctlLdiscData) (saved : List UInt8) : Callback :=
  let got := tuxctlLdiscGet data (12 - saved.length)
  let packet := saved ++ got.2
  let found := callbackLoop packet packet.length 0
  { ld := { discData := some got.1, saved := packet.drop found.2 }
    taken := got.2
    handled := found.1 }

/-- `tuxctl_ldisc_rcv_buf` for the bytes `cp`. -/
def tuxctlLdiscRcvBuf (ld : LineDiscipline) (cp : List UInt8) : Callback :=
  match ld.discData with
  | none => { ld := ld, taken := [], handled := [] }
  | some data => tuxctlLdiscDataCallback { data with rx := (data.rx.fill cp).1 } ld.saved

/-- `tuxctl_ldisc_write_wakeup` where the driver reports `room`, with the bytes that it hands to the
driver's `write`. -/
def tuxctlLdiscWriteWakeup (data : TuxctlLdiscData) (room : ℤ) : TuxctlLdiscData × List UInt8 :=
  -- the loop tests `n <= room` before it takes byte `n`, so that it takes one more than the room
  let sent := data.tx.drain (room + 1).toNat
  ({ data with tx := sent.1 }, sent.2)

/-- What `tuxctl_ldisc_put` does: the data after it, the bytes that it hands to the driver, and the
number of bytes that it has not written. -/
structure Put where
  data : TuxctlLdiscData
  sent : List UInt8
  notWritten : ℕ

/-- `tuxctl_ldisc_put` -/
def tuxctlLdiscPut (data : TuxctlLdiscData) (room : ℤ) (buf : List UInt8) : Put :=
  let filled := data.tx.fill buf
  let woken := tuxctlLdiscWriteWakeup { data with tx := filled.1 } room
  { data := woken.1, sent := woken.2, notWritten := filled.2.length }

section TransmitRing

variable (data : TuxctlLdiscData) (room : ℤ)

/-- A wake-up moves bytes from the ring to the driver below in order. -/
theorem tuxctlLdiscWriteWakeup_inOrder :
    (tuxctlLdiscWriteWakeup data room).2 ++ (tuxctlLdiscWriteWakeup data room).1.tx.contents =
      data.tx.contents :=
  Ring.drain_append_contents _ _

theorem tuxctlLdiscPut_notWritten (buf : List UInt8) :
    (tuxctlLdiscPut data room buf).notWritten = buf.length - data.tx.room := by
  rw [tuxctlLdiscPut, Ring.fill_snd, List.length_drop]

/-- What `tuxctl_ldisc_put` has stored comes behind the bytes that are on their way. -/
theorem tuxctlLdiscPut_line (buf : List UInt8) :
    (tuxctlLdiscPut data room buf).sent ++ (tuxctlLdiscPut data room buf).data.tx.contents =
      data.tx.contents ++ buf.take data.tx.room :=
  (tuxctlLdiscWriteWakeup_inOrder _ room).trans (Ring.contents_fill_fst data.tx buf)

end TransmitRing

end Sp18.TuxController
