import Sp18.Blink.Mp1

/-!
# The blink list of fish

`blink.S`, which implements the ioctls of mp1 once more, for a program of the user, and the
functions of `fish.c` that it calls. The nodes are the elements of the array `blink_array`, and
`mp1_malloc` takes the first of them whose location is 0. A pointer is null or points to an element
of the array.

The functions keep the registers of their callers and take from the stack what they have put there,
so that their registers are local variables. `ece391_memcpy` returns 0. A function does not end if
it follows links in a circle, and what a function reads from behind a null pointer is not modelled.
-/

set_option autoImplicit false
set_option relaxedAutoImplicit false

namespace Sp18.Fish

open Blink (Record low)

/-- The number of elements of `blink_array`. -/
def poolSize : ℕ := 80 * 25

/-- `struct mp1_blink_struct` -/
structure Node extends Record where
  next : Option ℕ
  deriving DecidableEq, Repr

/-- A node after `ece391_memset` with 0. -/
def Node.zero : Node :=
  { location := 0
    onChar := 0
    offChar := 0
    onLength := 0
    offLength := 0
    countdown := 0
    status := 0
    next := none }

/-- `mp1_list_head`, `blink_array` and the memory from `vmem_base_addr` on. -/
structure Memory where
  listHead : Option ℕ
  blinkArray : ℕ → Node
  vmem : BitVec 32 → BitVec 8

/-- Memory after `main` has cleared the array. -/
def Memory.initial (vmem : BitVec 32 → BitVec 8) : Memory :=
  { listHead := none, blinkArray := fun _ ↦ Node.zero, vmem := vmem }

namespace Memory

variable (m : Memory)

/-- An element of the array is written. -/
def store (i : ℕ) (node : Node) : Memory :=
  { m with blinkArray := Function.update m.blinkArray i node }

/-- `mp1_poke` -/
def poke (eax : BitVec 32) (cl : BitVec 8) : Memory :=
  { m with vmem := Function.update m.vmem eax cl }

/-- `mp1_malloc`: the loop over the array. -/
def malloc : Option ℕ :=
  (List.range poolSize).find? fun i ↦ (m.blinkArray i).location == 0

/-- `mp1_free` -/
def free (i : ℕ) : Memory := m.store i Node.zero

/-- What the pointer at an address holds: `mp1_list_head`, or the link of an element. -/
def link : Option ℕ → Option ℕ
  | none => m.listHead
  | some i => (m.blinkArray i).next

/-- The pointer at such an address is written. -/
def setLink (p : Option ℕ) : Option ℕ → Memory
  | none => { m with listHead := p }
  | some i => m.store i { m.blinkArray i with next := p }

end Memory

/-- Twice a location, as `movzwl` and `shll $1` leave it in `%eax`. -/
def offsetOf (location : BitVec 16) : BitVec 32 := location.setWidth 32 <<< 1

/-- The body of the loop of `mp1_rtc_tasklet` for the node that `%ebx` points to. -/
def visitNode (m : Memory) (ebx : ℕ) : Memory :=
  let node := m.blinkArray ebx
  let node := { node with countdown := node.countdown - 1 }
  let m := m.store ebx node
  -- `jg` takes the countdown for a signed number
  if (0 : BitVec 16).slt node.countdown then m
  else if node.status &&& 1 = 0 then
    (m.poke (offsetOf node.location) node.onChar).store ebx
      { node with countdown := node.onLength, status := node.status ^^^ 1 }
  else
    (m.poke (offsetOf node.location) node.offChar).store ebx
      { node with countdown := node.offLength, status := node.status ^^^ 1 }

/-- `tasklet_loop`. A walk of more steps than there are elements comes to a node twice. -/
def taskletLoop : ℕ → Memory → Option ℕ → Option Memory
  | 0, _, _ => none
  | _ + 1, m, none => some m
  | fuel + 1, m, some ebx => taskletLoop fuel (visitNode m ebx) (m.blinkArray ebx).next

/-- `mp1_rtc_tasklet` -/
def mp1RtcTasklet (m : Memory) : Option Memory := taskletLoop (poolSize + 1) m m.listHead

/-- The loop of `mp1_find_helper`, with the value of `%ebx`. -/
def findHelperLoop (m : Memory) (ax : BitVec 16) : ℕ → Option ℕ → Option (Option ℕ)
  | 0, _ => none
  | _ + 1, none => some none
  | fuel + 1, some ebx =>
    if (m.blinkArray ebx).location = ax then some (some ebx)
    else findHelperLoop m ax fuel (m.blinkArray ebx).next

/-- `mp1_find_helper` for the word on top of the stack. -/
def mp1FindHelper (m : Memory) (word : BitVec 32) : Option (Option ℕ) :=
  findHelperLoop m (low word) (poolSize + 1) m.listHead

/-- What a command leaves: its return value, the memory, and the node that it has copied to the
record of the user. -/
structure Exit where
  eax : BitVec 32
  memory : Memory
  found : Option Node

/-- `mp1_ioctl_add` with the record of the user. -/
def mp1IoctlAdd (m : Memory) (user : Node) : Option Exit :=
  if 2000 ≤ user.location then some ⟨-1, m, none⟩
  else
    let node := { user with status := 1, countdown := user.onLength }
    match m.malloc with
    | none => some ⟨-1, m, none⟩
    | some edx =>
      let m := m.store edx node
      let m := m.setLink m.listHead (some edx)
      let m := { m with listHead := some edx }
      let node := m.blinkArray edx
      some ⟨0, m.poke (offsetOf node.location) node.onChar, none⟩

/-- `remove_find_prev`, with the value of `%edx`. -/
def removeFindPrev (m : Memory) (eax : ℕ) : ℕ → Option ℕ → Option (Option ℕ)
  | 0, _ => none
  | fuel + 1, edx =>
    if m.link edx = some eax then some edx
    else
      match m.link edx with
      | none => none
      | some i => removeFindPrev m eax fuel (some i)

/-- `mp1_ioctl_remove` -/
def mp1IoctlRemove (m : Memory) (arg : BitVec 32) : Option Exit := do
  match ← mp1FindHelper m arg with
  | none => return ⟨-1, m, none⟩
  | some eax =>
    let edx ← removeFindPrev m eax (poolSize + 1) none
    let m := m.setLink (m.blinkArray eax).next edx
    return ⟨0, m.free eax, none⟩

/-- The flags that `cmovl` looks at. -/
structure Flags where
  sign : Bool
  overflow : Bool

/-- `testb` -/
def testb (a b : BitVec 8) : Flags := { sign := (a &&& b).msb, overflow := false }

/-- `cmovl`: the source is moved if the last comparison was less. -/
def cmovl (flags : Flags) (source target : BitVec 8) : BitVec 8 :=
  if flags.sign ≠ flags.overflow then source else target

/-- `mp1_ioctl_sync` -/
def mp1IoctlSync (m : Memory) (arg : BitVec 32) : Option Exit := do
  match ← mp1FindHelper m (arg >>> 16) with
  | none => return ⟨-1, m, none⟩
  | some esi =>
    match ← mp1FindHelper m (arg &&& 0xFFFF) with
    | none => return ⟨-1, m, none⟩
    | some edi =>
      let source := m.blinkArray esi
      let target : Node :=
        { m.blinkArray edi with
          onLength := source.onLength
          offLength := source.offLength
          countdown := source.countdown
          status := source.status }
      let m := m.store edi target
      -- `testb` leaves the flags of a result that is 0 or 1, which is never less
      let cl := cmovl (testb (target.status.setWidth 8) 1) target.onChar target.offChar
      return ⟨0, m.poke (offsetOf target.location) cl, none⟩

/-- `mp1_ioctl_find` with the record of the user. -/
def mp1IoctlFind (m : Memory) (user : Node) : Option Exit := do
  match ← mp1FindHelper m (user.location.setWidth 32) with
  | none => return ⟨-1, m, none⟩
  | some eax => return ⟨0, m, some (m.blinkArray eax)⟩

/-- A command with its argument, which for the first and the third one points to a record. -/
inductive Request where
  | add (user : Node)
  | remove (arg : BitVec 32)
  | find (user : Node)
  | sync (arg : BitVec 32)

/-- `mp1_ioctl` for the commands of `call_table`. -/
def mp1Ioctl (m : Memory) : Request → Option Exit
  | .add user => mp1IoctlAdd m user
  | .remove arg => mp1IoctlRemove m arg
  | .find user => mp1IoctlFind m user
  | .sync arg => mp1IoctlSync m arg

end Sp18.Fish
