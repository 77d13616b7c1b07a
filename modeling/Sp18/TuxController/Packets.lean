import Sp18.Foundation.StepSystem
import Sp18.TuxController.LineDiscipline
import Mathlib.Data.BitVec

/-!
# The packets that the driver handles

What the line discipline makes of the bytes from the controller, over any sequence of deliveries.
The packets handled are those that a scan of the bytes taken from the ring finds, and the bytes
kept in `saved` are what the scan leaves (`tuxctlLdiscDataCallback_spec` for one call,
`run_scanned` for a run). As long as no delivery finds the ring full, the bytes taken and the bytes
in the ring are the stream from the controller (`run_stream`), so that the packets do not depend on
how the stream is cut into deliveries (`deliveries_packets`).
-/

set_option autoImplicit false
set_option relaxedAutoImplicit false

namespace Sp18.TuxController

open Foundation

/-- The top bit of a byte. -/
def topBit (b : UInt8) : Bool := b.toBitVec.msb

/-- The packet that three bytes make, if their top bits are 0, 1 and 1. -/
def toPacket (p0 p1 p2 : UInt8) : Option Packet :=
  if topBit p0 = false ∧ topBit p1 = true ∧ topBit p2 = true then some ⟨p0, p1, p2⟩ else none

/-- The packets of a stream of bytes, found by a scan from left to right. -/
def packetsIn (stream : List UInt8) : List Packet := (scan toPacket stream).1

/-- The bytes at the end of a stream that the scan cannot decide yet. -/
def leftover (stream : List UInt8) : List UInt8 := (scan toPacket stream).2

theorem and_top_eq_zero (b : UInt8) : (b &&& 0x80 == 0) = !topBit b := by
  have hbits : ∀ v : BitVec 8, (v &&& 128#8 == 0#8) = !v.msb := by decide +kernel
  rw [topBit, ← hbits b.toBitVec, Bool.eq_iff_iff, beq_iff_eq, beq_iff_eq, ← UInt8.toBitVec_inj]
  rfl

theorem framed_eq (p0 p1 p2 : UInt8) : framed p0 p1 p2 = (toPacket p0 p1 p2).isSome := by
  rw [framed, bne, bne, and_top_eq_zero, and_top_eq_zero, and_top_eq_zero, toPacket]
  cases topBit p0 <;> cases topBit p1 <;> cases topBit p2 <;> rfl

theorem toPacket_of_framed {p0 p1 p2 : UInt8} (h : framed p0 p1 p2 = true) :
    toPacket p0 p1 p2 = some ⟨p0, p1, p2⟩ := by
  rw [framed_eq, toPacket] at h
  rw [toPacket]
  split_ifs at h ⊢ with hbits
  · rfl
  · cases h

theorem toPacket_of_not_framed {p0 p1 p2 : UInt8} (h : ¬framed p0 p1 p2 = true) :
    toPacket p0 p1 p2 = none := by
  rw [framed_eq, Option.isSome_iff_ne_none, not_not] at h
  exact h

theorem drop_eq_three {packet : List UInt8} {i : ℕ} (h : i < packet.length)
    (h' : i + 1 < packet.length) (h'' : i + 2 < packet.length) :
    packet.drop i = packet[i] :: packet[i + 1] :: packet[i + 2] :: packet.drop (i + 3) := by
  rw [List.drop_eq_getElem_cons h, List.drop_eq_getElem_cons h', List.drop_eq_getElem_cons h'']

/-- From index `i` on, the loop finds the packets of the bytes from `i` on, and ends where the scan
of them ends. -/
theorem callbackLoop_eq (packet : List UInt8) {fuel i : ℕ} (h : packet.length ≤ i + fuel) :
    (callbackLoop packet fuel i).1 = packetsIn (packet.drop i) ∧
      packet.drop (callbackLoop packet fuel i).2 = leftover (packet.drop i) := by
  induction fuel generalizing i with
  | zero =>
    have hnone : packet.drop i = [] := List.drop_eq_nil_of_le h
    rw [hnone]
    exact ⟨rfl, hnone⟩
  | succ fuel ih =>
    rw [callbackLoop]
    split_ifs with hmore hframed
    · obtain ⟨hpackets, hleft⟩ := ih (i := i + 3) (by omega)
      rw [packetsIn, leftover, drop_eq_three (by omega) (by omega) hmore,
        scan_of_frame (toPacket_of_framed hframed)]
      exact ⟨congrArg _ hpackets, hleft⟩
    · obtain ⟨hpackets, hleft⟩ := ih (i := i + 1) (by omega)
      rw [packetsIn, leftover, drop_eq_three (by omega) (by omega) hmore,
        scan_of_no_frame (toPacket_of_not_framed hframed),
        ← List.drop_eq_getElem_cons hmore,
        ← List.drop_eq_getElem_cons (Nat.lt_of_succ_lt hmore)]
      exact ⟨hpackets, hleft⟩
    · have hshort : (packet.drop i).length ≤ 2 := by
        rw [List.length_drop]
        omega
      rw [packetsIn, leftover, scan_short hshort]
      exact ⟨rfl, rfl⟩

/-- The callback goes on with the scan where the last call has left it. -/
theorem tuxctlLdiscDataCallback_spec (data : TuxctlLdiscData) (saved : List UInt8) :
    (tuxctlLdiscDataCallback data saved).handled =
        packetsIn (saved ++ (tuxctlLdiscDataCallback data saved).taken) ∧
      (tuxctlLdiscDataCallback data saved).ld.saved =
        leftover (saved ++ (tuxctlLdiscDataCallback data saved).taken) :=
  callbackLoop_eq _ (Nat.le_add_left _ _)

/-- The driver between two deliveries, with the bytes that it has taken from the ring so far and the
packets that it has handled. -/
structure Reception where
  ld : LineDiscipline
  taken : List UInt8
  handled : List Packet

/-- One delivery to `tuxctl_ldisc_rcv_buf`. -/
def receive (s : Reception) (cp : List UInt8) : Reception :=
  let callback := tuxctlLdiscRcvBuf s.ld cp
  { ld := callback.ld
    taken := s.taken ++ callback.taken
    handled := s.handled ++ callback.handled }

/-- The bytes that the loop of `tuxctl_ldisc_rcv_buf` does not store, since it finds the ring
full. -/
def unstored (s : Reception) (cp : List UInt8) : List UInt8 :=
  match s.ld.discData with
  | none => []
  | some data => (data.rx.fill cp).2

/-- The delivery does not find the ring full. -/
def Fits (s : Reception) (cp : List UInt8) : Prop := unstored s cp = []

instance (s : Reception) (cp : List UInt8) : Decidable (Fits s cp) :=
  inferInstanceAs (Decidable (unstored s cp = []))

/-- A delivery to an open line does not find the ring full exactly if the ring has the room for all
of it. -/
theorem fits_iff {s : Reception} {data : TuxctlLdiscData} (h : s.ld.discData = some data)
    (cp : List UInt8) : Fits s cp ↔ cp.length ≤ data.rx.room := by
  have hunstored : unstored s cp = (data.rx.fill cp).2 := by
    rw [unstored, h]
  rw [Fits, hunstored]
  exact Ring.fill_snd_eq_nil_iff data.rx cp

/-- The module after it is loaded and the line is opened. -/
def opened (rxBuf txBuf : Fin tuxctlBufsize → UInt8) : Reception :=
  { ld := tuxctlLdiscOpen { discData := none, saved := [] } rxBuf txBuf
    taken := []
    handled := [] }

/-- The bytes in the receive ring. -/
def Reception.inRing (s : Reception) : List UInt8 :=
  match s.ld.discData with
  | none => []
  | some data => data.rx.contents

/-- The packets handled and the bytes kept are what the scan of the bytes taken gives. -/
structure Reception.Scanned (s : Reception) : Prop where
  handled : s.handled = packetsIn s.taken
  saved : s.ld.saved = leftover s.taken

theorem receive_of_closed {s : Reception} (h : s.ld.discData = none) (cp : List UInt8) :
    receive s cp = s := by
  simp only [receive, tuxctlLdiscRcvBuf, h, List.append_nil]

theorem receive_of_open {s : Reception} {data : TuxctlLdiscData} (h : s.ld.discData = some data)
    (cp : List UInt8) :
    receive s cp =
      let callback := tuxctlLdiscDataCallback { data with rx := (data.rx.fill cp).1 } s.ld.saved
      ⟨callback.ld, s.taken ++ callback.taken, s.handled ++ callback.handled⟩ := by
  simp only [receive, tuxctlLdiscRcvBuf, h]

section Receive

variable {s : Reception} {data : TuxctlLdiscData}

/-- The callback takes what it can of the bytes in the ring, those just stored included. -/
theorem receive_taken (h : s.ld.discData = some data) (cp : List UInt8) : (receive s cp).taken =
    s.taken ++ (data.rx.fill cp).1.contents.take (12 - s.ld.saved.length) := by
  rw [receive_of_open h]
  exact congrArg (s.taken ++ ·) (Ring.drain_snd _ _)

theorem receive_inRing (h : s.ld.discData = some data) (cp : List UInt8) : (receive s cp).inRing =
    (data.rx.fill cp).1.contents.drop (12 - s.ld.saved.length) := by
  rw [receive_of_open h]
  exact Ring.contents_drain_fst _ _

theorem receive_isOpen (h : s.ld.discData ≠ none) (cp : List UInt8) :
    (receive s cp).ld.discData ≠ none := by
  obtain ⟨data, hdata⟩ := Option.ne_none_iff_exists'.mp h
  rw [receive_of_open hdata]
  exact Option.some_ne_none _

end Receive

theorem scanned_receive {s : Reception} (h : s.Scanned) (cp : List UInt8) :
    (receive s cp).Scanned := by
  cases hdata : s.ld.discData with
  | none =>
    rw [receive_of_closed hdata]
    exact h
  | some data =>
    obtain ⟨hhandled, hsaved⟩ := tuxctlLdiscDataCallback_spec
      { data with rx := (data.rx.fill cp).1 } s.ld.saved
    rw [receive_of_open hdata]
    constructor
    · change s.handled ++ _ = packetsIn (s.taken ++ _)
      rw [hhandled, h.handled, h.saved]
      exact (scan_append_fst s.taken _).symm
    · refine hsaved.trans ?_
      rw [h.saved]
      exact (scan_append_snd s.taken _).symm

theorem run_scanned {s : Reception} (h : s.Scanned) (deliveries : List (List UInt8)) :
    (run receive s deliveries).Scanned := by
  have hstep : ∀ (s : Reception) (cp : List UInt8), s.Scanned → (receive s cp).Scanned :=
    fun _ cp hs ↦ scanned_receive hs cp
  exact (everyState_of_invariant hstep h deliveries).last

/-- A delivery that fits adds its bytes to those that are taken or in the ring. -/
theorem receive_stream {s : Reception} (hopen : s.ld.discData ≠ none) {cp : List UInt8}
    (hfit : Fits s cp) : (receive s cp).taken ++ (receive s cp).inRing =
      s.taken ++ s.inRing ++ cp := by
  obtain ⟨data, hdata⟩ := Option.ne_none_iff_exists'.mp hopen
  have hinRing : s.inRing = data.rx.contents := by
    rw [Reception.inRing, hdata]
  rw [fits_iff hdata] at hfit
  rw [receive_taken hdata, receive_inRing hdata, List.append_assoc, List.take_append_drop,
    Ring.contents_fill_fst, List.take_of_length_le hfit, hinRing, List.append_assoc]

theorem run_stream {s : Reception} (hopen : s.ld.discData ≠ none) {deliveries : List (List UInt8)}
    (hfit : EveryStep receive Fits s deliveries) :
    (run receive s deliveries).taken ++ (run receive s deliveries).inRing =
      s.taken ++ s.inRing ++ deliveries.flatten := by
  induction deliveries generalizing s with
  | nil => rw [List.flatten_nil, List.append_nil, run]
  | cons cp rest ih =>
    rw [run, ih (receive_isOpen hopen cp) hfit.2, receive_stream hopen hfit.1, List.flatten_cons,
      List.append_assoc]

theorem scanned_opened (rxBuf txBuf : Fin tuxctlBufsize → UInt8) : (opened rxBuf txBuf).Scanned :=
  ⟨rfl, rfl⟩

theorem opened_stream {rxBuf txBuf : Fin tuxctlBufsize → UInt8} {deliveries : List (List UInt8)}
    (hfit : EveryStep receive Fits (opened rxBuf txBuf) deliveries) :
    (run receive (opened rxBuf txBuf) deliveries).taken ++
        (run receive (opened rxBuf txBuf) deliveries).inRing =
      deliveries.flatten := by
  rw [run_stream (Option.some_ne_none _) hfit]
  rfl

/-- Of two states that have taken a beginning of the same stream, the one that has taken less has
handled a beginning of the packets of the other. -/
theorem Reception.Scanned.handled_prefix {s s' : Reception} (h : s.Scanned) (h' : s'.Scanned)
    {stream : List UInt8} (hs : s.taken <+: stream) (hs' : s'.taken <+: stream)
    (hle : s.taken.length ≤ s'.taken.length) : s.handled <+: s'.handled := by
  rw [h.handled, h'.handled]
  exact scan_prefix (List.prefix_of_prefix_length_le hs hs' hle)

/-- Over any deliveries that never find the ring full, the packets handled are those that a scan of
the bytes taken so far finds, the bytes taken are a beginning of the stream, and at most two bytes
are kept. For another way to cut the same stream, the packets handled are the same as soon as as
many bytes have been taken. -/
theorem deliveries_packets (rxBuf txBuf : Fin tuxctlBufsize → UInt8)
    (deliveries : List (List UInt8))
    (hfit : EveryStep receive Fits (opened rxBuf txBuf) deliveries) :
    let s := run receive (opened rxBuf txBuf) deliveries
    s.handled = packetsIn s.taken ∧ s.ld.saved = leftover s.taken ∧ s.ld.saved.length ≤ 2 ∧
      s.taken ++ s.inRing = deliveries.flatten ∧
      ∀ (rxBuf' txBuf' : Fin tuxctlBufsize → UInt8) (deliveries' : List (List UInt8)),
        deliveries'.flatten = deliveries.flatten →
        EveryStep receive Fits (opened rxBuf' txBuf') deliveries' →
        let s' := run receive (opened rxBuf' txBuf') deliveries'
        (s.taken.length ≤ s'.taken.length → s.handled <+: s'.handled) ∧
          (s.taken.length = s'.taken.length →
            s.handled = s'.handled ∧ s.ld.saved = s'.ld.saved) := by
  intro s
  have hscanned : s.Scanned := run_scanned (scanned_opened rxBuf txBuf) deliveries
  have hstream : s.taken ++ s.inRing = deliveries.flatten := opened_stream hfit
  refine ⟨hscanned.handled, hscanned.saved, ?_, hstream, ?_⟩
  · rw [hscanned.saved]
    exact length_scan_snd_le s.taken
  · intro rxBuf' txBuf' deliveries' hsame hfit' s'
    have hscanned' : s'.Scanned := run_scanned (scanned_opened rxBuf' txBuf') deliveries'
    have hprefix : s.taken <+: deliveries.flatten := ⟨s.inRing, hstream⟩
    have hprefix' : s'.taken <+: deliveries.flatten :=
      ⟨s'.inRing, (opened_stream hfit').trans hsame⟩
    refine ⟨hscanned.handled_prefix hscanned' hprefix hprefix', ?_⟩
    intro hlength
    have htaken : s.taken = s'.taken :=
      (List.prefix_of_prefix_length_le hprefix hprefix' hlength.le).eq_of_length hlength
    rw [hscanned.handled, hscanned'.handled, hscanned.saved, hscanned'.saved, htaken]
    exact ⟨rfl, rfl⟩

/-- An acknowledgement between two lost bytes, in two deliveries. -/
theorem deliveries_packets_straddling :
    let s := run receive (opened (fun _ ↦ 0) (fun _ ↦ 0)) [[0x99, 0x40, 0x80], [0x80, 0x46]]
    EveryStep receive Fits (opened (fun _ ↦ 0) (fun _ ↦ 0)) [[0x99, 0x40, 0x80], [0x80, 0x46]] ∧
      s.taken = [0x99, 0x40, 0x80, 0x80, 0x46] ∧ packetsIn s.taken = [⟨0x40, 0x80, 0x80⟩] ∧
      s.handled = packetsIn s.taken ∧ s.ld.saved = [0x46] := by
  have hfit : EveryStep receive Fits (opened (fun _ ↦ 0) (fun _ ↦ 0))
      [[0x99, 0x40, 0x80], [0x80, 0x46]] := by decide +kernel
  obtain ⟨hhandled, -⟩ := deliveries_packets (fun _ ↦ 0) (fun _ ↦ 0) _ hfit
  exact ⟨hfit, by decide +kernel, by decide +kernel, hhandled, by decide +kernel⟩

end Sp18.TuxController
