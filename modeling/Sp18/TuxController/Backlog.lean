import Sp18.TuxController.Packets
import Mathlib.Data.List.TakeDrop

/-!
# The backlog of the receive ring

A call of `tuxctl_ldisc_rcv_buf` stores the bytes that are delivered and runs the callback once,
which takes 12 bytes at most, those of the last call included. A longer delivery leaves a backlog in
the ring until the next one comes.

There is never a backlog in exactly those runs in which no delivery is longer than what the callback
takes (`everyState_caughtUp_iff`).
-/

set_option autoImplicit false
set_option relaxedAutoImplicit false

namespace Sp18.TuxController

open Foundation

/-- The driver between two deliveries, with all bytes that have been delivered. -/
structure Delivered where
  reception : Reception
  stream : List UInt8

namespace Delivered

/-- Nothing is delivered yet. -/
def start (rxBuf txBuf : Fin tuxctlBufsize → UInt8) : Delivered := ⟨opened rxBuf txBuf, []⟩

/-- One delivery. -/
def deliver (s : Delivered) (cp : List UInt8) : Delivered :=
  { reception := receive s.reception cp, stream := s.stream ++ cp }

/-- The receive ring is empty, all packets that have come are handled, and no more than two bytes
are kept. -/
structure CaughtUp (s : Delivered) : Prop where
  empty : s.reception.inRing = []
  handled : s.reception.handled = packetsIn s.stream
  saved : s.reception.ld.saved.length ≤ 2

/-- The bytes delivered and those kept are no more than the callback takes. -/
def Short (s : Delivered) (cp : List UInt8) : Prop :=
  s.reception.ld.saved.length + cp.length ≤ 12

instance (s : Delivered) (cp : List UInt8) : Decidable (s.Short cp) :=
  inferInstanceAs (Decidable (_ ≤ _))

/-- An open line that has taken all bytes delivered. -/
structure Idle (s : Delivered) : Prop where
  scanned : s.reception.Scanned
  isOpen : s.reception.ld.discData ≠ none
  taken : s.reception.taken = s.stream
  empty : s.reception.inRing = []

variable {s : Delivered} {cp : List UInt8}

theorem Idle.caughtUp (h : s.Idle) : s.CaughtUp where
  empty := h.empty
  handled := by rw [h.scanned.handled, h.taken]
  saved := by
    rw [h.scanned.saved]
    exact length_scan_snd_le s.reception.taken

/-- What a delivery to an empty ring brings beyond what the callback takes stays in the ring. -/
theorem deliver_idle (h : s.Idle) (cp : List UInt8) :
    (s.deliver cp).reception.taken =
        s.stream ++ (cp.take 63).take (12 - s.reception.ld.saved.length) ∧
      (s.deliver cp).reception.inRing =
        (cp.take 63).drop (12 - s.reception.ld.saved.length) := by
  obtain ⟨data, hdata⟩ := Option.ne_none_iff_exists'.mp h.isOpen
  have hnone : data.rx.contents = [] := by
    simpa only [Reception.inRing, hdata] using h.empty
  have hroom : data.rx.room = 63 := by
    have hlength := Ring.length_contents data.rx
    rw [hnone, List.length_nil] at hlength
    rw [Ring.room, ← hlength]
    rfl
  have hring : (data.rx.fill cp).1.contents = cp.take 63 := by
    rw [Ring.contents_fill_fst, hnone, hroom, List.nil_append]
  constructor
  · rw [deliver, receive_taken hdata, hring, h.taken]
  · rw [deliver, receive_inRing hdata, hring]

/-- A short delivery leaves no backlog. -/
theorem idle_deliver (h : s.Idle) (hshort : s.Short cp) : (s.deliver cp).Idle := by
  obtain ⟨htaken, hring⟩ := deliver_idle h cp
  unfold Short at hshort
  have hstored : cp.take 63 = cp := List.take_of_length_le (by omega)
  rw [hstored] at htaken hring
  refine ⟨scanned_receive h.scanned cp, receive_isOpen h.isOpen cp, ?_, ?_⟩
  · rw [htaken, List.take_of_length_le (by omega)]
    rfl
  · rw [hring, List.drop_eq_nil_of_le (by omega)]

/-- A delivery that is not short leaves a backlog. -/
theorem short_of_caughtUp (h : s.Idle) (hnext : (s.deliver cp).CaughtUp) : s.Short cp := by
  have hring := (deliver_idle h cp).2
  rw [hnext.empty, eq_comm, List.drop_eq_nil_iff, List.length_take] at hring
  have hsaved := h.caughtUp.saved
  unfold Short
  omega

theorem idle_start (rxBuf txBuf : Fin tuxctlBufsize → UInt8) : (start rxBuf txBuf).Idle :=
  ⟨scanned_opened rxBuf txBuf, Option.some_ne_none _, rfl, rfl⟩

/-- The driver has caught up after each delivery in exactly the runs in which no delivery is longer
than what the callback takes besides the bytes that are kept. -/
theorem everyState_caughtUp_iff (rxBuf txBuf : Fin tuxctlBufsize → UInt8)
    (deliveries : List (List UInt8)) :
    EveryState deliver CaughtUp (start rxBuf txBuf) deliveries ↔
      EveryStep deliver Short (start rxBuf txBuf) deliveries :=
  everyState_iff_everyStep_of_inv (fun _ h ↦ h.caughtUp) (fun _ _ h hshort ↦ idle_deliver h hshort)
    (fun _ _ h hnext ↦ short_of_caughtUp h hnext) (idle_start rxBuf txBuf)

/-- Of five packets delivered together, the last one waits for the next delivery. -/
theorem caughtUp_not_always :
    Fits (opened (fun _ ↦ 0) fun _ ↦ 0) (List.replicate 5 [0x41, 0x80, 0x80]).flatten ∧
      ¬EveryState deliver CaughtUp (start (fun _ ↦ 0) fun _ ↦ 0)
        [(List.replicate 5 [0x41, 0x80, 0x80]).flatten] := by
  refine ⟨by decide, fun hcaughtUp ↦ ?_⟩
  have hshort := short_of_caughtUp (idle_start (fun _ ↦ 0) fun _ ↦ 0) hcaughtUp.2
  exact absurd hshort (by decide)

end Delivered

end Sp18.TuxController
