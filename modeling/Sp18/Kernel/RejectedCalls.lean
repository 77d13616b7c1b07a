import Sp18.Kernel.DescriptorTable

/-!
# Calls with a bad descriptor

`do_read`, `do_write` and `do_close` with a record of what they touch: the elements of `fd_arr` that
they read or store to, and the operation table that they call through. The checks are made from left
to right, so that a call with no buffer does not get to `fd_arr` at all.

All three compare `fd` with `MAX_OPEN_FILES` by `>`. The index 8 passes, and what stands for the
flags of the file object there is the argument string of the process (`call_rejected_iff`). With a
nonempty argument string `do_close` clears the parent of the process and calls through its saved
stack pointer (`doClose_behind`).
-/

set_option autoImplicit false
set_option relaxedAutoImplicit false

namespace Sp18.Kernel

open Foundation

/-- A call as it is seen from the PCB. `value` is `none` when the call goes through a word that is
no operation table, and `accessed` lists the accesses to `fd_arr` up to the call of an operation. -/
structure CallEffect where
  value : Option ℤ
  pcb : Pcb
  accessed : List ℤ
  called : Option Fops

/-- The checks of `do_read` and `do_write`, which are the same, and the jump to the operation.
`outcome` is what the operation returns and leaves in the PCB. -/
def jumpEffect (fd : ℤ) (buf : Option (ℤ → UInt8)) (nbytes : ℤ) (outcome : Option (ℤ × Pcb))
    (pcb : Pcb) : CallEffect :=
  if fd < 0 ∨ fd > maxOpenFiles ∨ buf.isNone ∨ nbytes = 0 then ⟨some (-1), pcb, [], none⟩
  else if (pcb.fileObject fd).flags = notUsed then ⟨some (-1), pcb, [fd], none⟩
  else ⟨outcome.map Prod.fst, (outcome.map Prod.snd).getD pcb, [fd, fd],
    some (pcb.fileObject fd).fops⟩

/-- `do_read` -/
def readEffect (img : Image) (fd : ℤ) (buf : Option (ℤ → UInt8)) (nbytes : ℤ) (tmp : ℤ → UInt8)
    (answer : DeviceAnswer) (pcb : Pcb) : CallEffect :=
  jumpEffect fd buf nbytes ((doRead img fd buf nbytes tmp answer pcb).map
    fun (value, _, pcb) ↦ (value, pcb)) pcb

/-- `do_write` -/
def writeEffect (fd : ℤ) (buf : Option (ℤ → UInt8)) (nbytes : ℤ) (answer : DeviceAnswer)
    (pcb : Pcb) : CallEffect :=
  jumpEffect fd buf nbytes ((doWrite fd buf nbytes answer pcb).map fun value ↦ (value, pcb)) pcb

/-- `do_close`. The three stores come before the jump. -/
def closeEffect (fd : ℤ) (pcb : Pcb) : CallEffect :=
  if fd < 2 ∨ fd > maxOpenFiles then ⟨some (-1), pcb, [], none⟩
  else if (pcb.fileObject fd).flags = notUsed then ⟨some (-1), pcb, [fd], none⟩
  else
    let pcb := pcb.setFileObject fd { pcb.fileObject fd with
      flags := notUsed, fpos := 0, inodeNum := 0 }
    ⟨(pcb.fileObject fd).fops.close, pcb, [fd, fd, fd, fd, fd], some (pcb.fileObject fd).fops⟩

/-- The three calls on a descriptor. A buffer of `none` is `NULL`. -/
inductive FdCall where
  | read (img : Image) (buf : Option (ℤ → UInt8)) (nbytes : ℤ) (tmp : ℤ → UInt8)
      (answer : DeviceAnswer)
  | write (buf : Option (ℤ → UInt8)) (nbytes : ℤ) (answer : DeviceAnswer)
  | close

namespace FdCall

/-- What a call does. -/
def effect (fd : ℤ) (pcb : Pcb) : FdCall → CallEffect
  | read img buf nbytes tmp answer => readEffect img fd buf nbytes tmp answer pcb
  | write buf nbytes answer => writeEffect fd buf nbytes answer pcb
  | close => closeEffect fd pcb

/-- The return value and the PCB that the call leaves, from the system calls themselves. -/
def outcome (fd : ℤ) (pcb : Pcb) : FdCall → Option ℤ × Pcb
  | read img buf nbytes tmp answer =>
    match doRead img fd buf nbytes tmp answer pcb with
    | some (value, _, pcb) => (some value, pcb)
    | none => (none, pcb)
  | write buf nbytes answer => (doWrite fd buf nbytes answer pcb, pcb)
  | close => doClose fd pcb

/-- A read or write that is refused for its other arguments. -/
def NoTransfer : FdCall → Prop
  | read _ buf nbytes _ _ => buf = none ∨ nbytes = 0
  | write buf nbytes _ => buf = none ∨ nbytes = 0
  | close => False

end FdCall

/-- The call fails and has no effect: it returns -1, stays within `fd_arr`, calls no operation and
leaves the PCB as it is. -/
structure CallEffect.Rejected (effect : CallEffect) (pcb : Pcb) : Prop where
  value : effect.value = some (-1)
  accessed : ∀ i ∈ effect.accessed, 0 ≤ i ∧ i < maxOpenFiles
  called : effect.called = none
  unchanged : effect.pcb = pcb

section Effects

variable {fd nbytes : ℤ} {buf : Option (ℤ → UInt8)} {pcb : Pcb}

/-- The checks of `do_read`, in the order of the source. -/
theorem doRead_of_refused (img : Image) (tmp : ℤ → UInt8) (answer : DeviceAnswer)
    (hcheck : fd < 0 ∨ fd > maxOpenFiles ∨ buf.isNone ∨ nbytes = 0 ∨
      (pcb.fileObject fd).flags = notUsed) :
    doRead img fd buf nbytes tmp answer pcb = some (-1, buf, pcb) := by
  cases buf with
  | none =>
    rw [doRead]
    split_ifs <;> rfl
  | some buf => rw [doRead, if_pos (by simpa using hcheck)]

theorem readEffect_eq (img : Image) (tmp : ℤ → UInt8) (answer : DeviceAnswer) :
    ((readEffect img fd buf nbytes tmp answer pcb).value,
        (readEffect img fd buf nbytes tmp answer pcb).pcb) =
      FdCall.outcome fd pcb (.read img buf nbytes tmp answer) := by
  rw [readEffect, jumpEffect, FdCall.outcome]
  by_cases hbad : fd < 0 ∨ fd > maxOpenFiles ∨ buf.isNone ∨ nbytes = 0
  · rw [if_pos hbad, doRead_of_refused img tmp answer (by tauto)]
  · rw [if_neg hbad]
    by_cases hfree : (pcb.fileObject fd).flags = notUsed
    · rw [if_pos hfree, doRead_of_refused img tmp answer (by tauto)]
    · rw [if_neg hfree]
      cases doRead img fd buf nbytes tmp answer pcb <;> rfl

theorem writeEffect_eq (answer : DeviceAnswer) :
    ((writeEffect fd buf nbytes answer pcb).value, (writeEffect fd buf nbytes answer pcb).pcb) =
      FdCall.outcome fd pcb (.write buf nbytes answer) := by
  rw [writeEffect, jumpEffect, FdCall.outcome]
  by_cases hbad : fd < 0 ∨ fd > maxOpenFiles ∨ buf.isNone ∨ nbytes = 0
  · rw [if_pos hbad, doWrite, if_pos (by tauto)]
  · rw [if_neg hbad]
    by_cases hfree : (pcb.fileObject fd).flags = notUsed
    · rw [if_pos hfree, doWrite, if_pos (by tauto)]
    · rw [if_neg hfree]
      cases doWrite fd buf nbytes answer pcb <;> rfl

theorem closeEffect_eq :
    ((closeEffect fd pcb).value, (closeEffect fd pcb).pcb) = FdCall.outcome fd pcb .close := by
  rw [closeEffect, FdCall.outcome, doClose]
  by_cases hbad : fd < 2 ∨ fd > maxOpenFiles
  · rw [if_pos hbad, if_pos hbad]
  · rw [if_neg hbad, if_neg hbad]
    by_cases hfree : (pcb.fileObject fd).flags = notUsed
    · rw [if_pos hfree, if_pos hfree]
    · rw [if_neg hfree, if_neg hfree]

/-- The record does not change what the calls do. -/
theorem FdCall.effect_eq (call : FdCall) :
    ((call.effect fd pcb).value, (call.effect fd pcb).pcb) = call.outcome fd pcb := by
  cases call with
  | read img buf nbytes tmp answer => exact readEffect_eq img tmp answer
  | write buf nbytes answer => exact writeEffect_eq answer
  | close => exact closeEffect_eq

/-- A descriptor that no call should accept: its index is outside the array, or its slot is not in
use. -/
def BadDescriptor (fd : ℤ) (pcb : Pcb) : Prop :=
  fd < 0 ∨ maxOpenFiles ≤ fd ∨ (pcb.fileObject fd).flags = notUsed

/-- The two system calls with a jump reject a bad descriptor, except that they look behind the
array for index 8. -/
theorem jumpEffect_rejected_iff (hbad : BadDescriptor fd pcb) (outcome : Option (ℤ × Pcb)) :
    (jumpEffect fd buf nbytes outcome pcb).Rejected pcb ↔
      fd ≠ maxOpenFiles ∨ buf = none ∨ nbytes = 0 := by
  rw [jumpEffect]
  by_cases hcheck : fd < 0 ∨ fd > maxOpenFiles ∨ buf.isNone ∨ nbytes = 0
  · rw [if_pos hcheck]
    refine iff_of_true ⟨rfl, by simp, rfl, rfl⟩ ?_
    rw [Option.isNone_iff_eq_none] at hcheck
    rcases hcheck with h | h | h | h
    · exact Or.inl (by unfold maxOpenFiles; omega)
    · exact Or.inl (by omega)
    · exact Or.inr (Or.inl h)
    · exact Or.inr (Or.inr h)
  · rw [if_neg hcheck]
    simp only [not_or, Option.isNone_iff_eq_none] at hcheck
    obtain ⟨hlow, hhigh, hbuf, hbytes⟩ := hcheck
    rw [or_iff_left (by tauto)]
    by_cases hlast : fd = maxOpenFiles
    · -- the flags behind the array are read
      have hbehind : ¬ ∀ i ∈ [fd], 0 ≤ i ∧ i < maxOpenFiles := by simp [hlast]
      refine iff_of_false (fun h ↦ hbehind ?_) (not_not.mpr hlast)
      have hwithin := h.accessed
      split_ifs at hwithin
      · exact hwithin
      · exact fun i hi ↦ hwithin i (List.mem_cons_of_mem _ hi)
    · have hfree : (pcb.fileObject fd).flags = notUsed := by
        rcases hbad with h | h | h
        · exact absurd h hlow
        · omega
        · exact h
      rw [if_pos hfree]
      exact iff_of_true ⟨rfl, by simp; omega, rfl, rfl⟩ hlast

theorem closeEffect_rejected_iff (hbad : BadDescriptor fd pcb) :
    (closeEffect fd pcb).Rejected pcb ↔ fd ≠ maxOpenFiles := by
  rw [closeEffect]
  by_cases hcheck : fd < 2 ∨ fd > maxOpenFiles
  · rw [if_pos hcheck]
    exact iff_of_true ⟨rfl, by simp, rfl, rfl⟩ (by unfold maxOpenFiles at *; omega)
  · rw [if_neg hcheck]
    by_cases hlast : fd = maxOpenFiles
    · have hbehind : ¬ ∀ i ∈ [fd], 0 ≤ i ∧ i < maxOpenFiles := by simp [hlast]
      refine iff_of_false (fun h ↦ hbehind ?_) (not_not.mpr hlast)
      have hwithin := h.accessed
      dsimp only at hwithin
      split_ifs at hwithin
      · exact hwithin
      · exact fun i hi ↦ hwithin i (by simpa using hi)
    · have hfree : (pcb.fileObject fd).flags = notUsed := by
        rcases hbad with h | h | h
        · omega
        · omega
        · exact h
      rw [if_pos hfree]
      exact iff_of_true ⟨rfl, by simp; omega, rfl, rfl⟩ hlast

/-- A call on a bad descriptor is rejected without effect exactly if the descriptor is not 8 or the
other arguments are refused before `fd_arr` is looked at. -/
theorem call_rejected_iff (call : FdCall) (hbad : BadDescriptor fd pcb) :
    (call.effect fd pcb).Rejected pcb ↔ fd ≠ maxOpenFiles ∨ call.NoTransfer := by
  cases call with
  | read img buf nbytes tmp answer => exact jumpEffect_rejected_iff hbad _
  | write buf nbytes answer => exact jumpEffect_rejected_iff hbad _
  | close =>
    rw [FdCall.NoTransfer, or_false]
    exact closeEffect_rejected_iff hbad

end Effects

/-- With a nonempty argument string the word behind the array says that the slot is in use. -/
theorem fileObject_behind_used {pcb : Pcb} (hargs : pcb.buffCopyArg 0 ≠ 0) :
    (pcb.fileObject maxOpenFiles).flags ≠ notUsed := by
  have hfirst : (pcb.buffCopyArg 0).toNat ≠ 0 := fun h ↦ hargs (UInt8.toNat_inj.mp h)
  have h0 := (pcb.buffCopyArg 0).toNat_lt
  have h1 := (pcb.buffCopyArg 1).toNat_lt
  have h2 := (pcb.buffCopyArg 2).toNat_lt
  have h3 := (pcb.buffCopyArg 3).toNat_lt
  have hword : wordAt pcb.buffCopyArg 0 ≠ 0 := by
    unfold wordAt i32
    omega
  exact hword

/-- Closing descriptor 8 then clears the saved base pointer, the parent and the first four bytes of
the argument string, and calls through the saved stack pointer. -/
theorem doClose_behind {pcb : Pcb} (hargs : pcb.buffCopyArg 0 ≠ 0) :
    doClose maxOpenFiles pcb = (none, { pcb with
      kernelBase := 0
      parent := 0
      buffCopyArg := fun i ↦ if i < 4 then 0 else pcb.buffCopyArg i }) := by
  have hcleared : ∀ i : ℕ, UInt8.ofNat ((u32 notUsed).toNat / 256 ^ i) = 0 := fun i ↦ by
    have hzero : (u32 notUsed).toNat = 0 := rfl
    rw [hzero, Nat.zero_div]
    rfl
  have hbehind : (maxOpenFiles : ℤ) = 8 := rfl
  rw [doClose, if_neg (by decide), if_neg (fileObject_behind_used hargs)]
  simp only [hbehind, Pcb.setFileObject, Pcb.fileObject, if_true, Fops.close, hcleared]

/-- The exact condition, for a read of descriptor 9 into a buffer. -/
theorem call_rejected_iff_nine :
    ((FdCall.read dotImage (some fun _ ↦ 0) 32 (fun _ ↦ 0) ⟨0, fun _ ↦ 0⟩).effect 9
        usedMemory).Rejected usedMemory ↔
      (9 : ℤ) ≠ maxOpenFiles ∨
        (FdCall.read dotImage (some fun _ ↦ 0) 32 (fun _ ↦ 0) ⟨0, fun _ ↦ 0⟩).NoTransfer :=
  call_rejected_iff _ (Or.inr (Or.inl (by decide)))

/-- `close(8)` in a process with an argument string. -/
theorem call_not_always_rejected : ¬ ∀ (fd : ℤ) (pcb : Pcb) (call : FdCall),
    BadDescriptor fd pcb → (call.effect fd pcb).Rejected pcb := by
  intro hall
  have hvalue := (hall 8 usedMemory .close (Or.inr (Or.inl (by decide)))).value
  have hnone : (FdCall.close.effect 8 usedMemory).value = none := by decide
  rw [hnone] at hvalue
  cases hvalue

end Sp18.Kernel
