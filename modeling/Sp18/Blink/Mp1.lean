import Mathlib.Data.BitVec
import Mathlib.Logic.Function.Basic

/-!
# The blink list of mp1

`mp1.S`: the ioctls of the list of blinking characters. Registers are variables, and the stack is
explicit: `%esp` and `%ebp` are the lists of the words from the one that they point to. A function
starts from the registers that its caller leaves, and ends with a jump to the address that it takes
from the stack. It does not end if it reads memory at an address where there is no node, or if it
follows links in a circle.

What the C functions return is part of the call. They keep `%ebx`, `%esi`, `%edi` and `%ebp`, and
their callers do not use the other registers after them.
-/

set_option autoImplicit false
set_option relaxedAutoImplicit false

namespace Sp18.Blink

/-- `struct mp1_blink_struct`, without the link. -/
structure Record where
  location : BitVec 16
  onChar : BitVec 8
  offChar : BitVec 8
  onLength : BitVec 16
  offLength : BitVec 16
  countdown : BitVec 16
  status : BitVec 16
  deriving DecidableEq, Repr

/-- `struct mp1_blink_struct` -/
structure Node extends Record where
  next : BitVec 32
  deriving DecidableEq, Repr

/-- A longword is written to the first four bytes of a node. -/
def Node.overwrite (node : Node) (word : BitVec 32) : Node :=
  { node with
    location := word.extractLsb' 0 16
    onChar := word.extractLsb' 16 8
    offChar := word.extractLsb' 24 8 }

/-- Memory: `mp1_list_head`, the nodes at the addresses that `mp1_malloc` has returned so far, which
of them are allocated, how often it has succeeded, the arguments of `mp1_free`, the latest first,
and the video memory. -/
structure Memory where
  listHead : BitVec 32
  node : BitVec 32 → Option Node
  live : BitVec 32 → Bool
  mallocs : ℕ
  freed : List (BitVec 32)
  vmem : BitVec 32 → BitVec 8

/-- Memory before the first ioctl. -/
def Memory.initial (vmem : BitVec 32 → BitVec 8) : Memory :=
  { listHead := 0
    node := fun _ ↦ none
    live := fun _ ↦ false
    mallocs := 0
    freed := []
    vmem := vmem }

/-- A node is written. -/
def Memory.store (m : Memory) (p : BitVec 32) (node : Node) : Memory :=
  { m with node := Function.update m.node p (some node) }

/-- `mp1_malloc`, where it returns `p`. -/
def Memory.malloc (m : Memory) (p : BitVec 32) : Memory :=
  if p = 0 then m else { m with live := Function.update m.live p true, mallocs := m.mallocs + 1 }

/-- `mp1_free` -/
def Memory.free (m : Memory) (p : BitVec 32) : Memory :=
  { m with live := Function.update m.live p false, freed := p :: m.freed }

/-- `mp1_poke` with twice the location in `%eax`. -/
def Memory.poke (m : Memory) (location : BitVec 16) (cl : BitVec 8) : Memory :=
  { m with vmem := Function.update m.vmem ((location * 2).setWidth 32) cl }

@[simp] theorem Memory.node_store_self (m : Memory) (p : BitVec 32) (node : Node) :
    (m.store p node).node p = some node := Function.update_self _ _ _

/-- The low half of a register. -/
def low (r : BitVec 32) : BitVec 16 := r.setWidth 16

/-- The words from `%esp` up and those from `%ebp` up. -/
structure Stack where
  esp : List (BitVec 32)
  ebp : List (BitVec 32)

namespace Stack

variable (s : Stack)

/-- `pushl` -/
def push (word : BitVec 32) : Stack := { s with esp := word :: s.esp }

/-- `addl $4n, %esp`, or `n` times `popl`. -/
def drop (n : ℕ) : Stack := { s with esp := s.esp.drop n }

/-- `0(%esp)` -/
def top : BitVec 32 := s.esp.getD 0 0

/-- `8(%ebp)` -/
def arg : BitVec 32 := s.ebp.getD 2 0

@[simp] theorem top_push (word : BitVec 32) : (s.push word).top = word := rfl

@[simp] theorem drop_push (word : BitVec 32) : (s.push word).drop 1 = s := rfl

@[simp] theorem arg_drop (n : ℕ) : (s.drop n).arg = s.arg := rfl

end Stack

/-- The first five instructions of each function, where `words` are those from `%esp` up. -/
def enter (ebx esi edi ebp : BitVec 32) (words : List (BitVec 32)) : Stack :=
  { esp := ebx :: esi :: edi :: ebp :: words, ebp := ebp :: words }

/-- What a caller passes to `mp1_ioctl`: the registers, the return address, the argument and the
words under it on the stack, the record of the user that the argument points to, what the calls of
`mp1_malloc` and `mp1_copy_from_user` return, and what `mp1_copy_to_user` leaves in `%edx`. -/
structure Call where
  eax : BitVec 32
  ebx : BitVec 32
  esi : BitVec 32
  edi : BitVec 32
  ebp : BitVec 32
  esp : BitVec 32
  address : BitVec 32
  arg : BitVec 32
  under : List (BitVec 32)
  user : Node
  malloc : BitVec 32
  notCopied : BitVec 32
  edx : BitVec 32

/-- The words from `%esp` up when a function is entered. -/
def Call.words (call : Call) : List (BitVec 32) := call.address :: call.arg :: call.under

/-- The stack of a function after its first five instructions. -/
def Call.entered (call : Call) : Stack :=
  enter call.ebx call.esi call.edi call.ebp call.words

/-- The state in which a function ends: the address that it jumps to, the registers that it has
restored, the stack, the memory and the record of the user. -/
structure Exit where
  address : BitVec 32
  eax : BitVec 32
  ebx : BitVec 32
  esi : BitVec 32
  edi : BitVec 32
  ebp : BitVec 32
  words : List (BitVec 32)
  memory : Memory
  user : Node

/-- The three `popl`, `leave` and `ret` at the end of each function. -/
def Stack.finish (s : Stack) (eax : BitVec 32) (m : Memory) (user : Node) : Exit :=
  { address := s.ebp.getD 1 0
    eax := eax
    ebx := s.esp.getD 0 0
    esi := s.esp.getD 1 0
    edi := s.esp.getD 2 0
    ebp := s.ebp.getD 0 0
    words := s.ebp.drop 2
    memory := m
    user := user }

/-- `worked` -/
def Stack.worked (s : Stack) (m : Memory) (user : Node) : Exit := s.finish 0 m user

/-- `negone` -/
def Stack.negone (s : Stack) (m : Memory) (user : Node) : Exit := s.finish (-1) m user

/-- The loop of `traverse`, with the values of `%ebx` and `%ecx`. It returns `%eax` and `%ebx`. -/
def traverseLoop (m : Memory) (ax : BitVec 16) :
    ℕ → BitVec 32 → BitVec 32 → Option (BitVec 32 × BitVec 32)
  | 0, _, _ => none
  | fuel + 1, ebx, ecx =>
    if ecx = 0 then some (0, ebx)
    else
      match m.node ecx with
      | none => none
      | some node =>
        if node.location = ax then some (ecx, ebx) else traverseLoop m ax fuel ecx node.next

/-- `traverse` for the word on top of the stack. It returns `%eax` and `%ebx`. A walk of more steps
than there have been nodes comes to a node twice. -/
def traverse (m : Memory) (edi top : BitVec 32) : Option (BitVec 32 × BitVec 32) :=
  -- the test for the head compares with `%di`, and reads a location also if the list is empty
  match m.node m.listHead with
  | none => none
  | some first =>
    if first.location = low edi then some (1, m.listHead)
    else traverseLoop m (low top) (m.mallocs + 1) m.listHead m.listHead

/-- `mp1_ioctl_add` -/
def mp1IoctlAdd (m : Memory) (call : Call) : Option Exit := do
  let s := call.entered
  let ecx := s.arg
  if ecx = 0 then
    return s.negone m call.user
  let m := m.malloc call.malloc
  let eax := call.malloc
  if eax = 0 then
    return s.negone m call.user
  let ebx := eax
  let s := s.push eax
  let m := m.store ebx call.user
  let eax := call.notCopied
  if eax ≠ 0 then
    -- `free` passes what `mp1_copy_from_user` has returned
    return s.negone (m.free eax) call.user
  let node ← m.node ebx
  if node.location.slt 0 then
    return s.negone m call.user
  if 1999 < node.location then
    return s.negone m call.user
  let edx := s.top
  let s := s.drop 1
  let node : Node :=
    { node with countdown := node.onLength, status := 1, next := m.listHead }
  let m := { m.store edx node with listHead := edx }
  return s.worked (m.poke node.location node.onChar) call.user

/-- `remove_loop`, with the value of `%edx`. It ends with the address of the node or with null. -/
def removeLoop (m : Memory) (eax : BitVec 32) : ℕ → BitVec 32 → Option (BitVec 32)
  | 0, _ => none
  | fuel + 1, edx =>
    if edx = 0 then some 0
    else if edx = eax then some edx
    else
      match m.node edx with
      | none => none
      | some node => removeLoop m eax fuel node.next

/-- `mp1_ioctl_remove` -/
def mp1IoctlRemove (m : Memory) (call : Call) : Option Exit := do
  let s := call.entered
  let (eax, _) ← traverse m call.edi s.arg
  if eax = 0 then
    return s.negone m call.user
  if m.listHead = eax then
    let node ← m.node m.listHead
    let m := { m with listHead := node.next }
    return s.worked (m.free eax) call.user
  let edx ← removeLoop m eax (m.mallocs + 1) m.listHead
  if edx = 0 then
    return s.negone m call.user
  let node ← m.node eax
  -- `%edx` is the address of the node itself, so that its own first bytes are overwritten
  let found ← m.node edx
  let m := m.store edx (found.overwrite node.next)
  return s.worked (m.free eax) call.user

/-- `mp1_ioctl_sync`, entered with these registers. -/
def mp1IoctlSync (m : Memory) (user : Node) (ebx edx esi edi ebp : BitVec 32)
    (words : List (BitVec 32)) : Option Exit := do
  let s := enter ebx esi edi ebp words
  let s := s.push (edx.extractLsb' 16 16 ++ low s.arg)
  let (eax, _) ← traverse m edi s.top
  let s := s.drop 1
  if eax = 0 then
    return s.negone m user
  let esi := eax
  let ecx := s.arg >>> 16
  -- this takes the saved `%ebx` from the stack, and the one after the search the saved `%esi`
  let s := s.drop 1
  let s := s.push ecx
  let (eax, _) ← traverse m edi s.top
  let s := s.drop 2
  if eax = 0 then
    return s.negone m user
  let edi := eax
  let source ← m.node edi
  let target ← m.node esi
  let synced : Node :=
    { target with
      onLength := source.onLength
      offLength := source.offLength
      countdown := source.countdown
      status := source.status }
  let m := m.store esi synced
  let cl := if synced.status ≠ 0 then synced.onChar else synced.offChar
  return s.worked (m.poke synced.location cl) user

/-- `mp1_ioctl_find` -/
def mp1IoctlFind (m : Memory) (call : Call) : Option Exit := do
  let s := call.entered
  let edi := s.arg
  if edi = 0 then
    return s.negone m call.user
  let (eax, ebx) ← traverse m edi call.eax
  if eax = 0 then
    return s.negone m call.user
  let s := ((s.push 16).push eax).push s.arg
  -- `mp1_copy_to_user` copies nothing if it cannot read the node
  let user := (m.node eax).getD call.user
  let s := s.drop 2
  let eax := s.top
  let s := s.drop 1
  if eax = 0 then
    return s.worked m user
  -- there is no jump, and the code of `mp1_ioctl_sync` follows
  mp1IoctlSync m user ebx call.edx call.esi edi (call.esp - 4) s.esp

/-- The entries of `ioctl_jump`. -/
inductive Command where
  | add
  | remove
  | find
  | sync
  deriving DecidableEq, Repr

/-- The number of a command, which `mp1_ioctl` leaves in `%edx`. -/
def Command.number : Command → BitVec 32
  | .add => 0
  | .remove => 1
  | .find => 2
  | .sync => 3

/-- `mp1_ioctl` for the commands of the jump table. -/
def mp1Ioctl (m : Memory) (command : Command) (call : Call) : Option Exit :=
  match command with
  | .add => mp1IoctlAdd m call
  | .remove => mp1IoctlRemove m call
  | .find => mp1IoctlFind m call
  | .sync =>
    mp1IoctlSync m call.user call.ebx command.number call.esi call.edi call.ebp call.words

end Sp18.Blink
