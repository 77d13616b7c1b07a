import Sp18.Kernel.DescriptorTable
import Sp18.Kernel.Strings

/-!
# Looking up names

`strlen` and `strncmp` see strings that end at a zero. A name of 32 bytes is stored without one, so
that `strlen` runs into the type behind it. `read_dentry_by_name` finds the first entry that it
takes for the one with the name, by a length that is an `int8_t` (`Dentry.TakenFor`). The types in
use end a name after one more byte at the latest, and the cut at 32 makes up for that: what is
compared is then exactly the two names, and the first entry with the name is found
(`readDentryByName_exact`).
-/

set_option autoImplicit false
set_option relaxedAutoImplicit false

namespace Sp18.Kernel

open Foundation

/-- The name in the first 32 bytes of an entry, which need not end at a zero. -/
def Dentry.name (entry : Dentry) : List UInt8 := stringAt entry.filename 0 filenameLen

/-- A zero follows every name of 32 bytes soon enough for `strlen` to fit into an `int8_t`. -/
def Image.NamesEnd (img : Image) : Prop :=
  ∀ i : ℕ, (i : ℤ) < u32 img.dirCount.toInt → strlen (img.dentries i).nameBytes < 128

/-- Entry `idx` is the first one with this name. -/
structure Image.FirstNamed (img : Image) (name : List UInt8) (idx : ℕ) : Prop where
  index_lt : (idx : ℤ) < u32 img.dirCount.toInt
  name_eq : (img.dentries idx).name = name
  first : ∀ i < idx, (img.dentries i).name ≠ name

/-- How many bytes of a name are compared with the entry. The length that `strlen` finds becomes an
`int8_t`, which covers all of the name up to 127. -/
def Dentry.compared (entry : Dentry) : ℕ :=
  if strlen entry.nameBytes < 128 then filenameLen else strlen entry.nameBytes % 256

/-- The lookup takes the entry for the one with the name. It takes no entry whose length is negative
as an `int8_t`, and thus a limit beyond the end of every name. -/
def Dentry.TakenFor (entry : Dentry) (name : List UInt8) : Prop :=
  strlen entry.nameBytes % 256 < 128 ∧ entry.name.take entry.compared = name.take entry.compared

/-- Entry `idx` is the first one that the lookup takes for the one with this name. -/
structure Image.FirstTaken (img : Image) (name : List UInt8) (idx : ℕ) : Prop where
  index_lt : (idx : ℤ) < u32 img.dirCount.toInt
  taken : (img.dentries idx).TakenFor name
  first : ∀ i < idx, ¬ (img.dentries i).TakenFor name

/-- `dentry` with the name, the type and the inode of `found`. -/
def Dentry.copyOf (dentry found : Dentry) : Dentry :=
  { dentry with
    filename := found.filename, filetype := found.filetype, inodeNum := found.inodeNum }

theorem length_name_le (entry : Dentry) : entry.name.length ≤ 32 :=
  length_stringAt_le _ _ _

theorem getElem_name (entry : Dentry) {i : ℕ} (h : i < entry.name.length) :
    entry.name[i] = entry.nameBytes i := by
  have hle := length_name_le entry
  have hchar : entry.name[i] = entry.filename (0 + i) := getElem_stringAt h
  rw [hchar, zero_add, Dentry.nameBytes, if_pos (by omega)]

/-! ### Names in the directory -/

section Entries

variable {entry : Dentry} {name : List UInt8} {fname : ℕ → UInt8}

theorem stringAt_nameBytes {n : ℕ} (hn : n ≤ 32) :
    stringAt entry.nameBytes 0 n = entry.name.take n := by
  have hlimit : n ≤ filenameLen := hn
  rw [Dentry.name, ← stringAt_take hlimit]
  exact stringAt_congr fun k _ hk ↦ if_pos (by omega)

/-- A name with a zero behind it has the length that `strlen` finds. -/
theorem strlen_nameBytes_of_lt (h : entry.name.length < 32) :
    strlen entry.nameBytes = entry.name.length := by
  have hstring : stringAt entry.nameBytes 0 32 = entry.name := by
    rw [stringAt_nameBytes le_rfl, List.take_of_length_le (length_name_le entry)]
  have hholds := HoldsString.of_length_lt (s := entry.nameBytes) (n := 32) (by rwa [hstring])
  rw [hstring] at hholds
  rw [strlen_of_holdsString hholds]
  omega

/-- A name of 32 bytes is at least as long. -/
theorem le_strlen_nameBytes (h : entry.name.length = 32) : 32 ≤ strlen entry.nameBytes := by
  have htake : (stringAt entry.nameBytes 0 4294967295).take 32 = entry.name := by
    rw [← stringAt_take (by norm_num), stringAt_nameBytes le_rfl,
      List.take_of_length_le (length_name_le entry)]
  have hlength := congrArg List.length htake
  rw [List.length_take, h] at hlength
  rw [strlen_eq]
  omega

/-- The second byte of a known type is zero. -/
theorem nameBytes_type {entry : Dentry} (htype : entry.filetype.toInt = rtcFile ∨
    entry.filetype.toInt = dirFile ∨ entry.filetype.toInt = regFile) :
    entry.nameBytes 33 = 0 := by
  have hvalue : entry.filetype = 0 ∨ entry.filetype = 1 ∨ entry.filetype = 2 := by
    simp only [← Int32.toInt_inj]
    exact htype
  rw [Dentry.nameBytes, if_neg (by norm_num), if_pos (by norm_num)]
  rcases hvalue with h | h | h <;> rw [h] <;> decide

theorem strlen_nameBytes_le (htype : entry.filetype.toInt = rtcFile ∨
    entry.filetype.toInt = dirFile ∨ entry.filetype.toInt = regFile) :
    strlen entry.nameBytes ≤ 33 :=
  strlen_le (nameBytes_type htype)

/-- The number of bytes that are compared, as long as `strlen` fits into an `int8_t`: all of the
longer name. -/
theorem compareSize_eq (hends : strlen entry.nameBytes < 128) (hname : HoldsString fname name)
    (hlength : name.length ≤ 32) :
    u32 (compareSize fname entry) = max entry.name.length name.length := by
  have hentry := length_name_le entry
  have hfname : strlen fname = name.length := by
    rw [strlen_of_holdsString hname]
    omega
  have hsame : strlen entry.nameBytes = entry.name.length ∨
      entry.name.length = 32 ∧ 32 ≤ strlen entry.nameBytes := by
    rcases hentry.lt_or_eq with hlt | heq
    · exact Or.inl (strlen_nameBytes_of_lt hlt)
    · exact Or.inr ⟨heq, le_strlen_nameBytes heq⟩
  unfold compareSize
  rw [hfname]
  unfold i8 u32
  dsimp only
  split_ifs <;> omega

/-- The number of bytes that are compared otherwise: what an `int8_t` keeps of the length. -/
theorem compareSize_of_long (hlong : 128 ≤ strlen entry.nameBytes) (hname : HoldsString fname name)
    (hlength : name.length ≤ 32) :
    u32 (compareSize fname entry) =
      if strlen entry.nameBytes % 256 < 128 then min ((strlen entry.nameBytes % 256 : ℕ) : ℤ) 32
      else 2 ^ 32 - 256 + (strlen entry.nameBytes % 256 : ℕ) := by
  have hfname : strlen fname = name.length := by
    rw [strlen_of_holdsString hname]
    omega
  have hlonger : strlen entry.nameBytes > name.length := by omega
  unfold compareSize
  rw [hfname, if_pos hlonger]
  unfold i8 u32
  dsimp only
  split_ifs <;> omega

/-- As long as `strlen` fits into an `int8_t`, an entry is taken for the one with its name only. -/
theorem takenFor_iff (hends : strlen entry.nameBytes < 128) (hlength : name.length ≤ 32) :
    entry.TakenFor name ↔ entry.name = name := by
  have hentry := length_name_le entry
  have hlimit : filenameLen = 32 := rfl
  rw [Dentry.TakenFor, Dentry.compared, if_pos hends, and_iff_right (by omega), hlimit,
    List.take_of_length_le hentry, List.take_of_length_le hlength]

/-- The strings that `strncmp` compares where the limit is small. -/
theorem strncmp_nameBytes_iff (hname : HoldsString fname name) {n : ℤ} (hn : n ≤ 32) :
    strncmp fname entry.nameBytes n = 0 ↔ entry.name.take n.toNat = name.take n.toNat := by
  rw [strncmp, strncmpLoop_eq_zero_iff, hname.stringAt, stringAt_nameBytes (by omega)]
  exact eq_comm

/-- Where the limit is beyond the end of every name, a string that runs on differs from the name. -/
theorem strncmp_nameBytes_ne (hlong : 128 ≤ strlen entry.nameBytes)
    (hname : HoldsString fname name) (hlength : name.length ≤ 32) {n : ℤ} (hn : 32 < n)
    (hn' : n < 2 ^ 32) : strncmp fname entry.nameBytes n ≠ 0 := by
  rw [strncmp, Ne, strncmpLoop_eq_zero_iff, hname.stringAt]
  intro hsame
  have hstring := congrArg List.length hsame
  rw [stringAt_take (by omega : n.toNat ≤ 4294967295), List.length_take, List.length_take,
    ← strlen_eq] at hstring
  omega

/-- What the lookup compares says whether it takes the entry. -/
theorem strncmp_eq_zero_iff (hname : HoldsString fname name) (hlength : name.length ≤ 32) :
    strncmp fname entry.nameBytes (u32 (compareSize fname entry)) = 0 ↔ entry.TakenFor name := by
  have hentry := length_name_le entry
  rcases lt_or_ge (strlen entry.nameBytes) 128 with hends | hlong
  · rw [takenFor_iff hends hlength, compareSize_eq hends hname hlength,
      strncmp_nameBytes_iff hname (by omega), Int.toNat_natCast,
      List.take_of_length_le (le_max_left _ _), List.take_of_length_le (le_max_right _ _)]
  · rw [compareSize_of_long hlong hname hlength, Dentry.TakenFor, Dentry.compared,
      if_neg (not_lt.mpr hlong)]
    split_ifs with hsign
    · have hcut : (min ((strlen entry.nameBytes % 256 : ℕ) : ℤ) 32).toNat =
          min (strlen entry.nameBytes % 256) 32 := by omega
      have htake : ∀ bytes : List UInt8, bytes.length ≤ 32 →
          bytes.take (min (strlen entry.nameBytes % 256) 32) =
            bytes.take (strlen entry.nameBytes % 256) := by
        intro bytes hbytes
        rw [← List.take_take, List.take_of_length_le hbytes]
      rw [strncmp_nameBytes_iff hname (min_le_right _ _), hcut, htake _ hentry, htake _ hlength,
        and_iff_right hsign]
    · exact iff_of_false (strncmp_nameBytes_ne hlong hname hlength (by omega) (by omega))
        fun htaken ↦ hsign htaken.1

end Entries

theorem Image.TypesKnown.namesEnd {img : Image} (htypes : img.TypesKnown) : img.NamesEnd := by
  intro i hi
  have hle := strlen_nameBytes_le (htypes i hi)
  omega

/-! ### The search -/

section Search

variable {img : Image} {fname : ℕ → UInt8} {name : List UInt8}

/-- What the search loop finds from entry `idx` on. -/
theorem findName_cases (img : Image) (hname : HoldsString fname name)
    (hlength : name.length ≤ 32) (idx remaining : ℕ) :
    (findName img fname idx remaining = none ∧
        ∀ i, idx ≤ i → i < idx + remaining → ¬ (img.dentries i).TakenFor name) ∨
      ∃ found, findName img fname idx remaining = some found ∧ found < idx + remaining ∧
        (img.dentries found).TakenFor name ∧
        ∀ i, idx ≤ i → i < found → ¬ (img.dentries i).TakenFor name := by
  induction remaining generalizing idx with
  | zero => exact Or.inl ⟨rfl, fun i hlow hhigh ↦ by omega⟩
  | succ remaining ih =>
    have hmatch : strncmp fname (img.dentries idx).nameBytes
        (u32 (compareSize fname (img.dentries idx))) = 0 ↔ (img.dentries idx).TakenFor name :=
      strncmp_eq_zero_iff hname hlength
    rw [findName]
    by_cases htaken : (img.dentries idx).TakenFor name
    · rw [if_pos (hmatch.mpr htaken)]
      exact Or.inr ⟨idx, rfl, by omega, htaken, fun i hlow hhigh ↦ by omega⟩
    · rw [if_neg fun h ↦ htaken (hmatch.mp h)]
      have hfrom : ∀ i, idx ≤ i → i = idx ∨ idx + 1 ≤ i := fun i hlow ↦ by omega
      rcases ih (idx + 1) with ⟨hnone, hall⟩ | ⟨found, hsome, hlt, hfound, hfirst⟩
      · refine Or.inl ⟨hnone, fun i hlow hhigh ↦ ?_⟩
        rcases hfrom i hlow with rfl | hnext
        · exact htaken
        · exact hall i hnext (by omega)
      · refine Or.inr ⟨found, hsome, by omega, hfound, fun i hlow hhigh ↦ ?_⟩
        rcases hfrom i hlow with rfl | hnext
        · exact htaken
        · exact hfirst i hnext hhigh

/-- An index below `dir_count` is answered with a copy of the entry. -/
theorem readDentryByIndex_of_lt {idx : ℕ} (hidx : (idx : ℤ) < u32 img.dirCount.toInt)
    (dentry : Dentry) :
    readDentryByIndex img (UInt32.ofNat idx) dentry = (0, dentry.copyOf (img.dentries idx)) := by
  have hcount := u32_lt img.dirCount.toInt
  have hvalue : (UInt32.ofNat idx).toNat = idx := by
    rw [UInt32.toNat_ofNat']
    omega
  rw [readDentryByIndex, hvalue, if_neg (by omega)]
  rfl

theorem Image.FirstTaken.unique {idx idx' : ℕ} (h : img.FirstTaken name idx)
    (h' : img.FirstTaken name idx') : idx = idx' :=
  le_antisymm (not_lt.mp fun hlt ↦ h.first idx' hlt h'.taken)
    (not_lt.mp fun hlt ↦ h'.first idx hlt h.taken)

theorem Image.FirstNamed.unique {idx idx' : ℕ} (h : img.FirstNamed name idx)
    (h' : img.FirstNamed name idx') : idx = idx' :=
  le_antisymm (not_lt.mp fun hlt ↦ h.first idx' hlt h'.name_eq)
    (not_lt.mp fun hlt ↦ h'.first idx hlt h.name_eq)

/-- No entry has a name of more than 32 bytes, and none is looked for. -/
theorem readDentryByName_of_long (hname : HoldsString fname name) (hlong : 32 < name.length)
    (dentry : Dentry) : readDentryByName img fname dentry = (-1, dentry) := by
  have hstrlen := strlen_of_holdsString hname
  have hlimit : filenameLen = 32 := rfl
  rw [readDentryByName, if_pos (by omega)]

/-- The two ways in which a lookup ends. -/
theorem readDentryByName_taken_or_none (img : Image) (hname : HoldsString fname name)
    (hlength : name.length ≤ 32) :
    (∃ found, img.FirstTaken name found ∧
        ∀ dentry, readDentryByName img fname dentry = (0, dentry.copyOf (img.dentries found))) ∨
      (∀ i : ℕ, (i : ℤ) < u32 img.dirCount.toInt → ¬ (img.dentries i).TakenFor name) ∧
        ∀ dentry, readDentryByName img fname dentry = (-1, dentry) := by
  have hstrlen := strlen_of_holdsString hname
  have hcount := u32_nonneg img.dirCount.toInt
  have hlimit : filenameLen = 32 := rfl
  have hshort : ¬ strlen fname > filenameLen := by omega
  rcases findName_cases img hname hlength 0 (u32 img.dirCount.toInt).toNat with
    ⟨hnone, hall⟩ | ⟨found, hsome, hlt, htaken, hfirst⟩
  · refine Or.inr ⟨fun i hi ↦ hall i (Nat.zero_le _) (by omega), fun dentry ↦ ?_⟩
    rw [readDentryByName, if_neg hshort, hnone]
  · refine Or.inl ⟨found, ⟨by omega, htaken, fun i hi ↦ hfirst i (Nat.zero_le _) hi⟩,
      fun dentry ↦ ?_⟩
    rw [readDentryByName, if_neg hshort, hsome]
    exact readDentryByIndex_of_lt (by omega) dentry

/-- As long as every `strlen` fits into an `int8_t`, the first entry that is taken is the first one
with the name. -/
theorem firstTaken_iff (hends : img.NamesEnd) (hlength : name.length ≤ 32) {idx : ℕ} :
    img.FirstTaken name idx ↔ img.FirstNamed name idx := by
  have hsame : ∀ i : ℕ, (i : ℤ) < u32 img.dirCount.toInt →
      ((img.dentries i).TakenFor name ↔ (img.dentries i).name = name) :=
    fun i hi ↦ takenFor_iff (hends i hi) hlength
  constructor
  · rintro ⟨hlt, htaken, hfirst⟩
    exact ⟨hlt, (hsame idx hlt).mp htaken, fun i hi h ↦ hfirst i hi ((hsame i (by omega)).mpr h)⟩
  · rintro ⟨hlt, hnamed, hfirst⟩
    exact ⟨hlt, (hsame idx hlt).mpr hnamed, fun i hi h ↦ hfirst i hi ((hsame i (by omega)).mp h)⟩

/-- The two ways in which a lookup ends, as long as every `strlen` fits into an `int8_t`. -/
theorem readDentryByName_found_or_unknown (hends : img.NamesEnd)
    (hname : HoldsString fname name) :
    (∃ idx, img.FirstNamed name idx ∧
        ∀ dentry, readDentryByName img fname dentry = (0, dentry.copyOf (img.dentries idx))) ∨
      (∀ idx : ℕ, (idx : ℤ) < u32 img.dirCount.toInt → (img.dentries idx).name ≠ name) ∧
        ∀ dentry, readDentryByName img fname dentry = (-1, dentry) := by
  by_cases hlong : 32 < name.length
  · refine Or.inr ⟨fun idx _ heq ↦ ?_, readDentryByName_of_long hname hlong⟩
    have hle := length_name_le (img.dentries idx)
    rw [heq] at hle
    omega
  · have hlength := not_lt.mp hlong
    rcases readDentryByName_taken_or_none img hname hlength with
      ⟨found, hfirst, hread⟩ | ⟨hnone, hread⟩
    · exact Or.inl ⟨found, (firstTaken_iff hends hlength).mp hfirst, hread⟩
    · refine Or.inr ⟨fun idx hidx heq ↦ ?_, hread⟩
      exact hnone idx hidx ((takenFor_iff (hends idx hidx) hlength).mpr heq)

theorem readDentryByName_of_firstNamed (hends : img.NamesEnd) (hname : HoldsString fname name)
    {idx : ℕ} (hfirst : img.FirstNamed name idx) (dentry : Dentry) :
    readDentryByName img fname dentry = (0, dentry.copyOf (img.dentries idx)) := by
  rcases readDentryByName_found_or_unknown hends hname with ⟨found, hfound, hread⟩ | ⟨hnone, -⟩
  · rw [hread, hfound.unique hfirst]
  · exact absurd hfirst.name_eq (hnone idx hfirst.index_lt)

/-- `read_dentry_by_name` copies name, type and inode of the first entry with the name, whatever
string the name is; if there is none, it fails and leaves `dentry` alone. -/
theorem readDentryByName_exact (htypes : img.TypesKnown) (hname : HoldsString fname name)
    (dentry : Dentry) :
    (∀ idx, img.FirstNamed name idx →
        readDentryByName img fname dentry = (0, dentry.copyOf (img.dentries idx))) ∧
      ((∀ idx : ℕ, (idx : ℤ) < u32 img.dirCount.toInt → (img.dentries idx).name ≠ name) →
        readDentryByName img fname dentry = (-1, dentry)) := by
  refine ⟨fun idx hfirst ↦ readDentryByName_of_firstNamed htypes.namesEnd hname hfirst dentry,
    fun hunknown ↦ ?_⟩
  rcases readDentryByName_found_or_unknown htypes.namesEnd hname with
    ⟨found, hfound, -⟩ | ⟨-, hread⟩
  · exact absurd hfound.name_eq (hunknown found hfound.index_lt)
  · exact hread dentry

end Search

theorem dotDentry_holdsString : HoldsString dotDentry.filename [46] where
  char i hi := by
    obtain rfl : i = 0 := Nat.lt_one_iff.mp hi
    rfl
  nonzero c hc := by
    rw [List.mem_singleton.mp hc]
    decide
  terminated := by decide

/-- The lookup of the directory in itself. -/
theorem readDentryByName_exact_dot :
    (∀ idx, dotImage.FirstNamed [46] idx →
        readDentryByName dotImage dotDentry.filename dotDentry =
          (0, dotDentry.copyOf (dotImage.dentries idx))) ∧
      ((∀ idx : ℕ, (idx : ℤ) < u32 dotImage.dirCount.toInt →
          (dotImage.dentries idx).name ≠ [46]) →
        readDentryByName dotImage dotDentry.filename dotDentry = (-1, dotDentry)) :=
  readDentryByName_exact dotImage_typesKnown dotDentry_holdsString dotDentry

end Sp18.Kernel
