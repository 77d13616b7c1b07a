import Sp18.Kernel.Names
import Sp18.Kernel.ReadBounds

/-!
# Listing the directory

`dir_read` copies the name of the entry at the position of the descriptor into the buffer and moves
on by one entry. It takes its return value from the buffer: the copy is a string even where the
name in the directory is not, because `strncpy` ends it behind the buffer. A process that opens the
directory and reads on sees every name once and in order (`dirReads_list`).

`read_dentry_by_index` compares with `>` and answers for the entry behind the last one, too. Apart
from this index, what the three functions say about the directory agrees (`directoryAccess_iff`), as
far as the lookup of a name finds the first entry with it, which it does where `strlen` of no stored
name is beyond an `int8_t` (`Image.NamesEnd.findsFirst`).
-/

set_option autoImplicit false
set_option relaxedAutoImplicit false

namespace Sp18.Kernel

open Foundation

/-- The arguments of a `dir_read`, and its uninitialised array `tmp`. -/
structure DirRequest where
  nbytes : ℤ
  buf : ℤ → UInt8
  tmp : ℤ → UInt8

/-- `nbytes` is positive, as an `int32_t`. -/
def DirRequest.Valid (request : DirRequest) : Prop := 0 < request.nbytes ∧ request.nbytes < 2 ^ 31

/-- The PCB after the first `k` reads of a directory. -/
def pcbAfterReads (img : Image) (fd : ℤ) (requests : ℕ → DirRequest) (pcb : Pcb) : ℕ → Pcb
  | 0 => pcb
  | k + 1 =>
    (dirRead img fd (requests k).buf (requests k).nbytes (requests k).tmp
      (pcbAfterReads img fd requests pcb k)).2.2

/-- What read `k` of a directory returns and leaves in the buffer. -/
def nthDirRead (img : Image) (fd : ℤ) (requests : ℕ → DirRequest) (pcb : Pcb) (k : ℕ) :
    ℤ × (ℤ → UInt8) :=
  let (value, buf, _) := dirRead img fd (requests k).buf (requests k).nbytes (requests k).tmp
    (pcbAfterReads img fd requests pcb k)
  (value, buf)

/-- The answer to a read of `nbytes` bytes is a name, as far as there is room for it. -/
structure AnswersName (name : List UInt8) (nbytes : ℤ) (answer : ℤ × (ℤ → UInt8)) : Prop where
  value : answer.1 = min nbytes name.length
  bytes : ∀ i (h : i < name.length), (i : ℤ) < nbytes → answer.2 i = name[i]

/-- A descriptor that has been opened and not been read from. -/
structure FreshDescriptor (pcb : Pcb) (fd : ℤ) : Prop where
  fd_nonneg : 0 ≤ fd
  fd_lt : fd < 8
  used : (pcb.fileObject fd).flags ≠ notUsed
  position : (pcb.fileObject fd).fpos = 0

/-- `dir_read` enumerates an entry `k`: read `k` finds one and moves the descriptor on. -/
def Enumerates (img : Image) (fd : ℤ) (requests : ℕ → DirRequest) (pcb : Pcb) (k : ℕ) : Prop :=
  ((pcbAfterReads img fd requests pcb (k + 1)).fileObject fd).fpos ≠
    ((pcbAfterReads img fd requests pcb k).fileObject fd).fpos

/-- The three ways to the directory say the same about an index. -/
structure DirectoryAgrees (img : Image) (fd : ℤ) (requests : ℕ → DirRequest) (pcb : Pcb)
    (index : UInt32) : Prop where
  succeeds_iff : ∀ dentry, (readDentryByIndex img index dentry).1 = 0 ↔
    Enumerates img fd requests pcb index.toNat
  name : Enumerates img fd requests pcb index.toNat → ∀ dentry,
    AnswersName (readDentryByIndex img index dentry).2.name (requests index.toNat).nbytes
      (nthDirRead img fd requests pcb index.toNat)
  lookup : Enumerates img fd requests pcb index.toNat → ∀ dentry dentry' fname,
    HoldsString fname (readDentryByIndex img index dentry).2.name →
      ∃ idx, img.FirstNamed (readDentryByIndex img index dentry).2.name idx ∧
        (readDentryByName img fname dentry').1 = 0 ∧
        (readDentryByName img fname dentry').2.filetype = (img.dentries idx).filetype ∧
        (readDentryByName img fname dentry').2.inodeNum = (img.dentries idx).inodeNum
  outside : img.dirCount.toInt ≤ index.toNat → ∀ dentry,
    readDentryByIndex img index dentry = (-1, dentry)

/-- The first entry that the lookup takes for the one with the name has the type and the inode of
the first one with the name. -/
structure Image.FindsFirst (img : Image) (name : List UInt8) (idx found : ℕ) : Prop where
  named : img.FirstNamed name idx
  taken : img.FirstTaken name found
  filetype : (img.dentries found).filetype = (img.dentries idx).filetype
  inodeNum : (img.dentries found).inodeNum = (img.dentries idx).inodeNum

/-! ### One read -/

/-- What a copy of a name is cut off to, by the buffer and by the 32 bytes of `tmp`. -/
theorem stringAt_nameBytes_take (entry : Dentry) (n : ℕ) :
    (stringAt entry.nameBytes 0 n).take 32 = entry.name.take n := by
  rcases Nat.le_total n 32 with hle | hge
  · rw [stringAt_nameBytes hle, List.take_take, min_eq_right hle]
  · have hlength := length_name_le entry
    rw [← stringAt_take hge, stringAt_nameBytes le_rfl, List.take_of_length_le hlength,
      List.take_of_length_le (by omega)]

section Read

variable {img : Image} {fd : ℤ} {pcb : Pcb} {request : DirRequest}

/-- A read before the end of the directory answers with the name at the position and moves on. -/
theorem dirRead_lists (hfd : 0 ≤ fd) (hfd' : fd < 8) (hused : (pcb.fileObject fd).flags ≠ notUsed)
    (hvalid : request.Valid) (hentry : (pcb.fileObject fd).fpos < img.dirCount.toInt) :
    ∃ value buf, dirRead img fd request.buf request.nbytes request.tmp pcb = (value, buf,
        pcb.setFileObject fd { pcb.fileObject fd with
          fpos := i32 ((pcb.fileObject fd).fpos + 1) }) ∧
      AnswersName (img.dentries (pcb.fileObject fd).fpos.toNat).name request.nbytes
        (value, buf) := by
  obtain ⟨hpos, hlt⟩ := hvalid
  have hrange : ¬ (fd < 0 ∨ fd ≥ maxOpenFiles) := by
    unfold maxOpenFiles
    omega
  generalize hname : img.dentries (pcb.fileObject fd).fpos.toNat = entry
  generalize hbuf : strncpy request.buf entry.nameBytes request.nbytes = buf
  have hstring : HoldsString (fun i : ℕ ↦ buf i)
      (stringAt entry.nameBytes 0 request.nbytes.toNat) := by
    rw [← hbuf]
    exact strncpy_holdsString _ _ hpos.le (by omega)
  -- the copy in `tmp`, cut off at 32 bytes
  have htmp := (strncpy_holdsString request.tmp (fun i : ℕ ↦ buf i)
    (by norm_num : (0 : ℤ) ≤ 32 + 1) (by norm_num)).update_zero filenameLen
  rw [hstring.stringAt, List.take_take] at htmp
  have hcut : min filenameLen (32 + 1 : ℤ).toNat = 32 := rfl
  rw [hcut, stringAt_nameBytes_take] at htmp
  have hlength := length_name_le entry
  refine ⟨strlen fun i ↦ Function.update
    (strncpy request.tmp (fun i ↦ buf i) (filenameLen + 1)) filenameLen 0 i, buf, ?_, ?_, ?_⟩
  · rw [dirRead, if_neg hrange]
    simp only [if_neg hused, if_neg (not_le.mpr hentry), hname, hbuf]
  · have hsame : (fun i : ℕ ↦ Function.update (strncpy request.tmp (fun i ↦ buf i)
        (filenameLen + 1)) filenameLen 0 (i : ℤ)) =
          Function.update (fun i : ℕ ↦ strncpy request.tmp (fun i ↦ buf i) (32 + 1) i)
            filenameLen 0 := by
      funext i
      by_cases hi : i = filenameLen
      · rw [hi, Function.update_self, Function.update_self]
      · rw [Function.update_of_ne hi, Function.update_of_ne (by exact_mod_cast hi)]
        rfl
    dsimp only
    rw [hsame, strlen_of_holdsString htmp, List.length_take]
    omega
  · intro i hi hroom
    have htake : i < (stringAt entry.nameBytes 0 request.nbytes.toNat).length := by
      have hcopied := congrArg List.length (stringAt_nameBytes_take entry request.nbytes.toNat)
      rw [List.length_take, List.length_take] at hcopied
      omega
    have hbyte := hstring.char i htake
    rw [getElem_stringAt, zero_add, ← getElem_name entry hi] at hbyte
    exact hbyte

/-- A read at the end of the directory returns 0 and changes nothing. -/
theorem dirRead_ended (hfd : 0 ≤ fd) (hfd' : fd < 8) (hused : (pcb.fileObject fd).flags ≠ notUsed)
    (hend : img.dirCount.toInt ≤ (pcb.fileObject fd).fpos) :
    dirRead img fd request.buf request.nbytes request.tmp pcb = (0, request.buf, pcb) := by
  have hrange : ¬ (fd < 0 ∨ fd ≥ maxOpenFiles) := by
    unfold maxOpenFiles
    omega
  rw [dirRead, if_neg hrange]
  simp only [if_neg hused, if_pos hend]

end Read

/-! ### The whole directory -/

section Run

variable {img : Image} {fd : ℤ} {pcb : Pcb} {requests : ℕ → DirRequest}

/-- After `k` reads the descriptor is still open and stands behind `k` entries, or at the end. -/
theorem position_pcbAfterReads (hfresh : FreshDescriptor pcb fd)
    (hvalid : ∀ k, (requests k).Valid) (hcount : 0 ≤ img.dirCount.toInt) (k : ℕ) :
    ((pcbAfterReads img fd requests pcb k).fileObject fd).flags ≠ notUsed ∧
      ((pcbAfterReads img fd requests pcb k).fileObject fd).fpos =
        min (k : ℤ) img.dirCount.toInt := by
  have hlow := hfresh.fd_nonneg
  have hhigh := hfresh.fd_lt
  have hmax := img.dirCount.toInt_lt
  obtain ⟨slot, rfl⟩ : ∃ slot : Fin 8, fd = slot.val :=
    ⟨⟨fd.toNat, by omega⟩, (Int.toNat_of_nonneg hlow).symm⟩
  induction k with
  | zero => exact ⟨hfresh.used, by rw [pcbAfterReads, hfresh.position]; omega⟩
  | succ k ih =>
    obtain ⟨hused, hposition⟩ := ih
    rw [pcbAfterReads]
    by_cases hentry : ((pcbAfterReads img slot.val requests pcb k).fileObject slot.val).fpos <
        img.dirCount.toInt
    · obtain ⟨value, buf, hread, -⟩ := dirRead_lists hlow hhigh hused (hvalid k) hentry
      rw [hread, fileObject_setFileObject]
      refine ⟨hused, ?_⟩
      dsimp only
      rw [i32_of_range (by omega) (by omega)]
      push_cast
      omega
    · rw [dirRead_ended hlow hhigh hused (not_lt.mp hentry)]
      refine ⟨hused, ?_⟩
      push_cast
      omega

/-- Read `k` from the start answers with the name of entry `k`, and with 0 behind the last one. -/
theorem nthDirRead_lists (hfresh : FreshDescriptor pcb fd) (hvalid : ∀ k, (requests k).Valid)
    (hcount : 0 ≤ img.dirCount.toInt) (k : ℕ) :
    ((k : ℤ) < img.dirCount.toInt →
        AnswersName (img.dentries k).name (requests k).nbytes
          (nthDirRead img fd requests pcb k)) ∧
      (img.dirCount.toInt ≤ k → (nthDirRead img fd requests pcb k).1 = 0) := by
  obtain ⟨hused, hposition⟩ := position_pcbAfterReads hfresh hvalid hcount k
  have hlow := hfresh.fd_nonneg
  have hhigh := hfresh.fd_lt
  rw [nthDirRead]
  refine ⟨fun hentry ↦ ?_, fun hend ↦ ?_⟩
  · rw [min_eq_left hentry.le] at hposition
    obtain ⟨value, buf, hread, hanswer⟩ :=
      dirRead_lists hlow hhigh hused (hvalid k) (by rw [hposition]; exact hentry)
    rw [hposition, Int.toNat_natCast] at hanswer
    rw [hread]
    exact hanswer
  · rw [min_eq_right hend] at hposition
    rw [dirRead_ended hlow hhigh hused hposition.ge]

/-- Of a process that has made any calls, opens the directory and reads it: the reads answer with
the names of the entries in their order, each once, and with 0 from then on. -/
theorem dirReads_list (htypes : img.TypesKnown) (hcount : 0 ≤ img.dirCount.toInt) (pid : ℕ)
    (memory : Pcb) (calls : List DescriptorCall) {filename : ℕ → UInt8}
    {openDentry openDentry' : Dentry} (hdir : img.lookup filename = some .directory)
    {value : ℤ} {opened : Pcb}
    (hopen : doOpen img filename openDentry openDentry'
      (run (descriptorStep img) (initPcb pid memory) calls) = (value, opened)) (hfd : value ≠ -1)
    (hvalid : ∀ k, (requests k).Valid) (k : ℕ) :
    ((k : ℤ) < img.dirCount.toInt →
        AnswersName (img.dentries k).name (requests k).nbytes
          (nthDirRead img value requests opened k)) ∧
      (img.dirCount.toInt ≤ k → (nthDirRead img value requests opened k).1 = 0) := by
  obtain ⟨fd, rfl, hused, -, hposition⟩ :=
    doOpen_fresh (wellFormed_run htypes pid memory calls) htypes hdir hopen hfd
  have hlt := fd.isLt
  have hfresh : FreshDescriptor opened fd.val :=
    ⟨by omega, by omega, by rw [hused]; decide, hposition⟩
  exact nthDirRead_lists hfresh hvalid hcount k

/-! ### Agreement -/

/-- There are as many entries to enumerate as `dir_count` says. -/
theorem enumerates_iff (hfresh : FreshDescriptor pcb fd) (hvalid : ∀ k, (requests k).Valid)
    (hcount : 0 ≤ img.dirCount.toInt) (k : ℕ) :
    Enumerates img fd requests pcb k ↔ (k : ℤ) < img.dirCount.toInt := by
  rw [Enumerates, (position_pcbAfterReads hfresh hvalid hcount (k + 1)).2,
    (position_pcbAfterReads hfresh hvalid hcount k).2]
  push_cast
  omega

/-- What `read_dentry_by_name` answers to a name that has a first entry. -/
theorem lookup_iff {name : List UInt8} (hlength : name.length ≤ 32) {fname : ℕ → UInt8}
    (hname : HoldsString fname name) (dentry : Dentry) :
    (∃ idx, img.FirstNamed name idx ∧ (readDentryByName img fname dentry).1 = 0 ∧
        (readDentryByName img fname dentry).2.filetype = (img.dentries idx).filetype ∧
        (readDentryByName img fname dentry).2.inodeNum = (img.dentries idx).inodeNum) ↔
      ∃ idx found, img.FindsFirst name idx found := by
  rcases readDentryByName_taken_or_none img hname hlength with
    ⟨found, htaken, hread⟩ | ⟨hnone, hread⟩
  · rw [hread]
    constructor
    · rintro ⟨idx, hnamed, -, hfiletype, hinode⟩
      exact ⟨idx, found, hnamed, htaken, hfiletype, hinode⟩
    · rintro ⟨idx, found', hnamed, htaken', hfiletype, hinode⟩
      obtain rfl := htaken'.unique htaken
      exact ⟨idx, hnamed, rfl, hfiletype, hinode⟩
  · rw [hread]
    refine iff_of_false ?_ ?_
    · rintro ⟨idx, -, hvalue, -⟩
      exact absurd hvalue (by norm_num)
    · rintro ⟨idx, found, -, htaken, -⟩
      exact hnone found htaken.index_lt htaken.taken

/-- Where every `strlen` fits into an `int8_t`, the lookup of a name finds the first entry with
it. -/
theorem Image.NamesEnd.findsFirst (hends : img.NamesEnd) {k : ℕ}
    (hk : (k : ℤ) < u32 img.dirCount.toInt) :
    ∃ idx, img.FindsFirst (img.dentries k).name idx idx := by
  have hexists : ∃ idx, (img.dentries idx).name = (img.dentries k).name := ⟨k, rfl⟩
  have hfirst := Nat.find_min' hexists rfl
  have hnamed : img.FirstNamed (img.dentries k).name (Nat.find hexists) :=
    ⟨by omega, Nat.find_spec hexists, fun i hi ↦ Nat.find_min hexists hi⟩
  exact ⟨_, hnamed, (firstTaken_iff hends (length_name_le _)).mpr hnamed, rfl, rfl⟩

/-- An index below `dir_count` is listed and answered with its entry, and the lookup of its name
decides. -/
theorem directoryAgrees_below (hcount : 0 ≤ img.dirCount.toInt) (hfresh : FreshDescriptor pcb fd)
    (hvalid : ∀ k, (requests k).Valid) {index : UInt32}
    (hlt : (index.toNat : ℤ) < img.dirCount.toInt) :
    DirectoryAgrees img fd requests pcb index ↔
      ∃ idx found, img.FindsFirst (img.dentries index.toNat).name idx found := by
  have hmax := img.dirCount.toInt_lt
  have hu32 : u32 img.dirCount.toInt = img.dirCount.toInt := u32_of_range hcount (by omega)
  have henumerates := (enumerates_iff hfresh hvalid hcount index.toNat).mpr hlt
  have hread : ∀ dentry, readDentryByIndex img index dentry =
      (0, dentry.copyOf (img.dentries index.toNat)) := by
    intro dentry
    rw [readDentryByIndex, hu32, if_neg (by omega)]
    rfl
  have hcopy : ∀ dentry : Dentry, (dentry.copyOf (img.dentries index.toNat)).name =
      (img.dentries index.toNat).name := fun _ ↦ rfl
  have hlength := length_name_le (img.dentries index.toNat)
  constructor
  · intro hagrees
    have hnonzero : ∀ c ∈ (img.dentries index.toNat).name, c ≠ 0 :=
      fun _ hc ↦ ne_zero_of_mem_stringAt hc
    obtain ⟨fname, hname⟩ := HoldsString.exists_memory hnonzero
    have hlookup := hagrees.lookup henumerates dotDentry dotDentry fname
    rw [hread, hcopy] at hlookup
    exact (lookup_iff hlength hname dotDentry).mp (hlookup hname)
  · refine fun hfinds ↦ ⟨fun dentry ↦ ?_, fun _ dentry ↦ ?_, fun _ dentry dentry' fname hname ↦ ?_,
      fun hout ↦ by omega⟩
    · rw [hread]
      exact iff_of_true rfl henumerates
    · rw [hread, hcopy]
      exact (nthDirRead_lists hfresh hvalid hcount index.toNat).1 hlt
    · rw [hread, hcopy] at hname ⊢
      exact (lookup_iff hlength hname dentry').mpr hfinds

/-- An index above `dir_count` is neither listed nor answered. -/
theorem directoryAgrees_above (hcount : 0 ≤ img.dirCount.toInt) (hfresh : FreshDescriptor pcb fd)
    (hvalid : ∀ k, (requests k).Valid) {index : UInt32}
    (hgt : img.dirCount.toInt < index.toNat) : DirectoryAgrees img fd requests pcb index := by
  have hmax := img.dirCount.toInt_lt
  have hu32 : u32 img.dirCount.toInt = img.dirCount.toInt := u32_of_range hcount (by omega)
  have hread : ∀ dentry, readDentryByIndex img index dentry = (-1, dentry) := by
    intro dentry
    rw [readDentryByIndex, hu32, if_pos (by omega)]
  have hnone : ¬ Enumerates img fd requests pcb index.toNat := by
    rw [enumerates_iff hfresh hvalid hcount]
    omega
  refine ⟨fun dentry ↦ ?_, fun h ↦ absurd h hnone, fun h ↦ absurd h hnone,
    fun _ dentry ↦ hread dentry⟩
  rw [hread]
  exact iff_of_false (fun hvalue : (-1 : ℤ) = 0 ↦ by omega) hnone

/-- The index `dir_count` is answered with what stands behind the last entry. -/
theorem not_directoryAgrees_end (hcount : 0 ≤ img.dirCount.toInt) {index : UInt32}
    (hlast : (index.toNat : ℤ) = img.dirCount.toInt) :
    ¬ DirectoryAgrees img fd requests pcb index := by
  have hmax := img.dirCount.toInt_lt
  have hu32 : u32 img.dirCount.toInt = img.dirCount.toInt := u32_of_range hcount (by omega)
  intro hagrees
  have houtside := hagrees.outside hlast.ge dotDentry
  rw [readDentryByIndex, hu32, if_neg (by omega)] at houtside
  have hvalue : (0 : ℤ) = -1 := congrArg Prod.fst houtside
  omega

/-- The three ways to the directory agree about every index but the one behind the last entry, as
far as the lookup of a name finds the first entry with it. -/
theorem directoryAccess_iff (hcount : 0 ≤ img.dirCount.toInt) (hfresh : FreshDescriptor pcb fd)
    (hvalid : ∀ k, (requests k).Valid) (index : UInt32) :
    DirectoryAgrees img fd requests pcb index ↔ (index.toNat : ℤ) ≠ img.dirCount.toInt ∧
      ((index.toNat : ℤ) < img.dirCount.toInt →
        ∃ idx found, img.FindsFirst (img.dentries index.toNat).name idx found) := by
  rcases lt_trichotomy (index.toNat : ℤ) img.dirCount.toInt with hlt | heq | hgt
  · rw [directoryAgrees_below hcount hfresh hvalid hlt, and_iff_right hlt.ne,
      forall_prop_of_true hlt]
  · exact iff_of_false (not_directoryAgrees_end hcount heq) fun hsuits ↦ hsuits.1 heq
  · exact iff_of_true (directoryAgrees_above hcount hfresh hvalid hgt)
      ⟨hgt.ne', fun hlt ↦ absurd hlt hgt.not_gt⟩

end Run

/-- Reads with room for a whole name. -/
def wideRequests (_ : ℕ) : DirRequest := ⟨33, fun _ ↦ 65, fun _ ↦ 66⟩

theorem wideRequests_valid (k : ℕ) : (wideRequests k).Valid :=
  ⟨(by decide : (0 : ℤ) < 33), (by decide : (33 : ℤ) < 2 ^ 31)⟩

/-- The entry of the RTC. -/
def rtcDentry : Dentry := ⟨fun i ↦ [114, 116, 99].getD i 0, 0, 0, fun _ ↦ 0⟩

/-- The entry of a file whose name takes up all 32 bytes. -/
def longDentry : Dentry := ⟨fun _ ↦ 97, 2, 0, fun _ ↦ 0⟩

/-- A disk with the directory, the RTC and this file. -/
def namesImage : Image :=
  { dotImage with
    dirCount := 3
    dentries := fun idx ↦ if idx = 0 then dotDentry else if idx = 1 then rtcDentry else longDentry }

theorem namesImage_typesKnown : namesImage.TypesKnown := by
  intro idx hidx
  have hcount : u32 namesImage.dirCount.toInt = 3 := by decide
  obtain rfl | rfl | rfl : idx = 0 ∨ idx = 1 ∨ idx = 2 := by omega
  all_goals decide +kernel

/-- A process that has just started opens the directory. -/
theorem doOpen_namesImage : (doOpen namesImage dotDentry.filename dotDentry dotDentry
    (initPcb 3 usedMemory)).1 = 2 := by
  decide +kernel

/-- The listing, for the directory with three entries: the third read answers with the last name. -/
theorem dirReads_list_names :
    (((2 : ℕ) : ℤ) < namesImage.dirCount.toInt →
        AnswersName (namesImage.dentries 2).name (wideRequests 2).nbytes
          (nthDirRead namesImage 2 wideRequests (doOpen namesImage dotDentry.filename dotDentry
            dotDentry (initPcb 3 usedMemory)).2 2)) ∧
      (namesImage.dirCount.toInt ≤ (2 : ℕ) →
        (nthDirRead namesImage 2 wideRequests (doOpen namesImage dotDentry.filename dotDentry
          dotDentry (initPcb 3 usedMemory)).2 2).1 = 0) := by
  have hdir : namesImage.lookup dotDentry.filename = some .directory := by decide +kernel
  exact dirReads_list namesImage_typesKnown (by decide) 3 usedMemory [] hdir
    (Prod.ext doOpen_namesImage rfl) (by decide) wideRequests_valid 2

theorem directoryPcb_fresh : FreshDescriptor directoryPcb 2 :=
  ⟨by decide, by decide, by decide, by decide⟩

/-- The exact condition, for the first entry. -/
theorem directoryAccess_iff_first :
    DirectoryAgrees dotImage 2 wideRequests directoryPcb 0 ↔
      ((0 : UInt32).toNat : ℤ) ≠ dotImage.dirCount.toInt ∧
        (((0 : UInt32).toNat : ℤ) < dotImage.dirCount.toInt → ∃ idx found,
          dotImage.FindsFirst (dotImage.dentries (0 : UInt32).toNat).name idx found) :=
  directoryAccess_iff (by decide) directoryPcb_fresh wideRequests_valid 0

/-- Index 1 of a directory with one entry is answered with what stands behind that entry. -/
theorem directoryAccess_not_always : ¬ ∀ (img : Image) (fd : ℤ) (requests : ℕ → DirRequest)
    (pcb : Pcb) (index : UInt32), img.NamesEnd → 0 ≤ img.dirCount.toInt →
      FreshDescriptor pcb fd → (∀ k, (requests k).Valid) →
        DirectoryAgrees img fd requests pcb index := by
  intro hall
  have hagrees := hall dotImage 2 wideRequests directoryPcb 1 dotImage_typesKnown.namesEnd
    (by decide) directoryPcb_fresh wideRequests_valid
  have houtside := hagrees.outside (by decide) dotDentry
  exact absurd (congrArg Prod.fst houtside) (by decide)

end Sp18.Kernel
