import Sp18.Kernel.Itoa

/-!
# Formatted output

`printf` of `lib.c`, with `lib_puts` of `terminal.c`. What it displays is the list of the characters
that it passes to `lib_putc`. The format is an array, and a read behind its end stops the run. The
stores of `lib_putc` to the screen are not checked: up to the first shell, whose `execute` does not
return, the kernel calls `printf` only before `paging_init`, when every address can be stored to.

What a conversion displays is the numeral of its argument (`rendered`), also where it is padded with
zeros to eight characters (`printHex_eq`) and where it has a sign (`printSigned_eq`).
-/

set_option autoImplicit false
set_option relaxedAutoImplicit false

namespace Sp18.Kernel.Lib

open Foundation

/-- What a call of `printf` finds: the array that `format` points to, the doublewords behind
`format` on the stack, the characters from an address on, and what the memory of `conv_buf` holds.
-/
structure PrintfCall where
  format : List UInt8
  args : ℕ → BitVec 32
  pointee : BitVec 32 → ℕ → UInt8
  convBuf : ℤ → UInt8

/-- The variables of `printf`, and what it has displayed. `buf` counts from the start of the format
and `esp` from the first argument after it. -/
structure Printing where
  buf : ℕ
  esp : ℕ
  printed : List UInt8

/-- `*buf` -/
def PrintfCall.charAt (call : PrintfCall) (buf : ℕ) : Except Stop UInt8 :=
  match call.format[buf]? with
  | none => .error .outside
  | some c => .ok c

/-- `lib_putc` -/
def libPutc (c : UInt8) (printed : List UInt8) : List UInt8 := printed ++ [c]

/-- The loop of `lib_puts` from position `index` on. -/
def libPutsLoop (s : ℕ → UInt8) : ℕ → ℕ → List UInt8 → Except Stop (List UInt8)
  | 0, _, _ => .error .noFuel
  | fuel + 1, index, printed =>
    if s index ≠ 0 then libPutsLoop s fuel (index + 1) (libPutc (s index) printed)
    else .ok printed

/-- `lib_puts` -/
def libPuts (s : ℕ → UInt8) (printed : List UInt8) (fuel : ℕ) : Except Stop (List UInt8) :=
  libPutsLoop s fuel 0 printed

/-- The loop that fills `conv_buf` with zeros from `i` up to index 8. -/
def padLoop : ℕ → ℤ → (ℤ → UInt8) → Except Stop (ℤ → UInt8)
  | 0, _, _ => .error .noFuel
  | fuel + 1, i, convBuf =>
    if i < 8 then padLoop fuel (i + 1) (Function.update convBuf i '0'.toUInt8) else .ok convBuf

section Conversions

variable (call : PrintfCall) (fuel : ℕ)

/-- Case `x`. -/
def printHex (alternate : Bool) (s : Printing) : Except Stop Printing := do
  let printed ←
    if alternate = false then do
      let convBuf ← itoa (call.args s.esp) 0 16 call.convBuf fuel
      libPuts (fun i : ℕ ↦ convBuf i) s.printed fuel
    else do
      let convBuf ← itoa (call.args s.esp) 8 16 call.convBuf fuel
      let startingIndex := i32 (strlen fun i : ℕ ↦ convBuf (8 + i))
      let convBuf ← padLoop fuel startingIndex convBuf
      libPuts (fun i : ℕ ↦ convBuf (startingIndex + i)) s.printed fuel
  .ok { s with esp := s.esp + 1, printed := printed }

/-- Case `u`. -/
def printUnsigned (s : Printing) : Except Stop Printing := do
  let convBuf ← itoa (call.args s.esp) 0 10 call.convBuf fuel
  let printed ← libPuts (fun i : ℕ ↦ convBuf i) s.printed fuel
  .ok { s with esp := s.esp + 1, printed := printed }

/-- Case `d`. The negation of the least number is that number again. -/
def printSigned (s : Printing) : Except Stop Printing := do
  let value := call.args s.esp
  let convBuf ←
    if value.toInt < 0 then
      itoa (-value) 1 10 (Function.update call.convBuf 0 '-'.toUInt8) fuel
    else itoa value 0 10 call.convBuf fuel
  let printed ← libPuts (fun i : ℕ ↦ convBuf i) s.printed fuel
  .ok { s with esp := s.esp + 1, printed := printed }

/-- Case `s`. -/
def printString (s : Printing) : Except Stop Printing := do
  let printed ← libPuts (call.pointee (call.args s.esp)) s.printed fuel
  .ok { s with esp := s.esp + 1, printed := printed }

/-- The code from `format_char_switch` on, with `alternate` in front of the other variables. It is
run again after a `#`. -/
def formatCharSwitch (s : Bool × Printing) : Except Stop ((Bool × Printing) × Bool) := do
  let (alternate, s) := s
  let c ← call.charAt s.buf
  if c = '%'.toUInt8 then
    .ok ((alternate, { s with printed := libPutc '%'.toUInt8 s.printed }), false)
  else if c = '#'.toUInt8 then .ok ((true, { s with buf := s.buf + 1 }), true)
  else do
    let s ←
      if c = 'x'.toUInt8 then printHex call fuel alternate s
      else if c = 'u'.toUInt8 then printUnsigned call fuel s
      else if c = 'd'.toUInt8 then printSigned call fuel s
      else if c = 'c'.toUInt8 then
        .ok { s with
          esp := s.esp + 1
          printed := libPutc (UInt8.ofBitVec ((call.args s.esp).setWidth 8)) s.printed }
      else if c = 's'.toUInt8 then printString call fuel s
      else .ok s
    .ok ((alternate, s), false)

/-- One round of the loop of `printf`: the next variables, and whether the loop goes on. -/
def printfRound (s : Printing) : Except Stop (Printing × Bool) := do
  let c ← call.charAt s.buf
  if c = 0 then .ok (s, false)
  else do
    let s ←
      if c = '%'.toUInt8 then do
        let (_, s) ←
          doWhileChecked (formatCharSwitch call fuel) fuel (false, { s with buf := s.buf + 1 })
        .ok s
      else .ok { s with printed := libPutc c s.printed }
    .ok ({ s with buf := s.buf + 1 }, true)

/-- `printf`: what it displays, and what it returns. -/
def printf : Except Stop (List UInt8 × ℤ) := do
  let s ← doWhileChecked (printfRound call fuel) fuel ⟨0, 0, []⟩
  .ok (s.printed, i32 s.buf)

end Conversions

/-! ### What conversions display -/

/-- The numeral of a number with zeros in front of it, eight characters in all. -/
def paddedHex (value : BitVec 32) : List UInt8 :=
  let text := numeralText 16 value.toNat
  List.replicate (8 - text.length) '0'.toUInt8 ++ text

/-- The numeral of a signed number. -/
def signedText (value : BitVec 32) : List UInt8 :=
  if value.toInt < 0 then '-'.toUInt8 :: numeralText 10 value.toInt.natAbs
  else numeralText 10 value.toNat

/-- What is displayed for the conversion character `c`, if its argument is `value`, or a pointer to
`string`. -/
def rendered (alternate : Bool) (c : UInt8) (value : BitVec 32) (string : List UInt8) :
    List UInt8 :=
  if c = '%'.toUInt8 then ['%'.toUInt8]
  else if c = 'x'.toUInt8 then
    if alternate = false then numeralText 16 value.toNat else paddedHex value
  else if c = 'u'.toUInt8 then numeralText 10 value.toNat
  else if c = 'd'.toUInt8 then signedText value
  else if c = 'c'.toUInt8 then [UInt8.ofBitVec (value.setWidth 8)]
  else if c = 's'.toUInt8 then string
  else []

/-- The number of arguments that a conversion takes. -/
def argumentCount (c : UInt8) : ℕ :=
  if c ∈ ['x', 'u', 'd', 'c', 's'].map Char.toUInt8 then 1 else 0

section Displays

variable {name : List UInt8} {fuel : ℕ}

/-- `lib_puts` displays the string that it gets. -/
theorem libPuts_eq {s : ℕ → UInt8} (h : HoldsString s name) (hfuel : name.length < fuel)
    (printed : List UInt8) : libPuts s printed fuel = .ok (printed ++ name) := by
  have hloop : ∀ k ≤ name.length, ∀ fuel printed, name.length - k < fuel →
      libPutsLoop s fuel k printed = .ok (printed ++ name.drop k) := by
    intro k hk fuel printed hfuel
    induction fuel generalizing k printed with
    | zero => exact absurd hfuel (Nat.not_lt_zero _)
    | succ fuel ih =>
      rw [libPutsLoop]
      rcases hk.lt_or_eq with hlt | rfl
      · have hne : s k ≠ 0 := by
          rw [h.char k hlt]
          exact h.nonzero _ (List.getElem_mem hlt)
        rw [if_pos hne, ih (k + 1) hlt _ (by omega), libPutc, h.char k hlt,
          List.drop_eq_getElem_cons hlt, List.append_assoc, List.singleton_append]
      · rw [if_neg (not_not_intro h.terminated), List.drop_length, List.append_nil]
  rw [libPuts, hloop 0 (Nat.zero_le _) fuel printed (by omega), List.drop_zero]

theorem padLoop_eq {k : ℕ} (hk : k ≤ 8) (hfuel : 8 - k < fuel) (convBuf : ℤ → UInt8) :
    padLoop fuel k convBuf = .ok (storeList convBuf k (List.replicate (8 - k) '0'.toUInt8)) := by
  induction fuel generalizing k convBuf with
  | zero => exact absurd hfuel (Nat.not_lt_zero _)
  | succ fuel ih =>
    rw [padLoop]
    rcases hk.lt_or_eq with hlt | rfl
    · have hnext := ih hlt (by omega) (Function.update convBuf k '0'.toUInt8)
      have hcount : 8 - k = 8 - (k + 1) + 1 := by omega
      rw [if_pos (by omega), hcount, List.replicate_succ, storeList]
      exact_mod_cast hnext
    · rw [if_neg (by omega), Nat.sub_self]
      rfl

theorem length_numeralText_le (value : BitVec 32) {radix k : ℕ} (hradix : 1 < radix) (hk : 0 < k)
    (hpow : 2 ^ 32 ≤ radix ^ k) : (numeralText radix value.toNat).length ≤ k := by
  rw [length_numeralText]
  exact length_numeral_le hradix hk (value.isLt.trans_le hpow)

theorem length_paddedHex (value : BitVec 32) : (paddedHex value).length = 8 := by
  have hlength : (numeralText 16 value.toNat).length ≤ 8 :=
    length_numeralText_le value (by omega) (by omega) (by omega)
  rw [paddedHex, List.length_append, List.length_replicate]
  omega

theorem numeralText_ne_zero {radix n : ℕ} (hradix : 1 < radix) (hsmall : radix ≤ 36) :
    ∀ c ∈ numeralText radix n, c ≠ 0 := fun _ hc ↦ ne_zero_of_mem_numeralText hradix hsmall hc

/-- A string that stands at the start of `conv_buf` is displayed. -/
theorem libPuts_storeList (convBuf : ℤ → UInt8) (hname : ∀ c ∈ name, c ≠ 0)
    (hfuel : name.length < fuel) (printed : List UInt8) :
    libPuts (fun i : ℕ ↦ storeList convBuf 0 (name ++ [0]) i) printed fuel =
      .ok (printed ++ name) :=
  libPuts_eq (storeString_holdsString convBuf hname) hfuel printed

/-- The padding and the numeral behind it are one string in `conv_buf`. -/
theorem padded_holdsString (convBuf : ℤ → UInt8) (hlength : name.length ≤ 8)
    (hname : ∀ c ∈ name, c ≠ 0) :
    HoldsString (fun i : ℕ ↦ storeList (storeList convBuf 8 (name ++ [0])) name.length
      (List.replicate (8 - name.length) '0'.toUInt8) (name.length + i))
      (List.replicate (8 - name.length) '0'.toUInt8 ++ name) := by
  have hbehind : (8 : ℤ) =
      name.length + (List.replicate (8 - name.length) '0'.toUInt8).length := by
    rw [List.length_replicate]
    omega
  have hne : ∀ c ∈ List.replicate (8 - name.length) '0'.toUInt8 ++ name, c ≠ 0 := by
    intro c hc
    rcases List.mem_append.mp hc with hzero | hchar
    · rw [List.eq_of_mem_replicate hzero]
      decide
    · exact hname c hchar
  rw [storeList_comm convBuf hbehind.ge, hbehind, ← storeList_append, ← List.append_assoc]
  exact storeList_holdsString convBuf name.length hne

theorem toNat_neg_of_neg {value : BitVec 32} (h : value.toInt < 0) :
    (-value).toNat = value.toInt.natAbs := by
  have hlt := value.isLt
  rw [BitVec.toInt_eq_toNat_cond] at h ⊢
  rw [BitVec.toNat_neg]
  split at h
  · omega
  · next hcond =>
    rw [if_neg hcond]
    omega

section Numbers

variable (hfuel : 32 < fuel) (value : BitVec 32) (buf : ℤ) (memory : ℤ → UInt8)
include hfuel

theorem itoa_sixteen : itoa value buf 16 memory fuel =
    .ok (storeList memory buf (numeralText 16 value.toNat ++ [0])) :=
  itoa_eq value buf (by decide) (by decide) memory hfuel

theorem itoa_ten : itoa value buf 10 memory fuel =
    .ok (storeList memory buf (numeralText 10 value.toNat ++ [0])) :=
  itoa_eq value buf (by decide) (by decide) memory hfuel

variable (call : PrintfCall) (s : Printing)

/-- Both ways of printing a number in hexadecimal form. The padding starts as far from index 8 as
the numeral is long, so that both parts together are eight characters. -/
theorem printHex_eq (alternate : Bool) :
    printHex call fuel alternate s = .ok { s with
      esp := s.esp + 1
      printed := s.printed ++ if alternate = false then numeralText 16 (call.args s.esp).toNat
        else paddedHex (call.args s.esp) } := by
  generalize hargument : call.args s.esp = value
  have hlength : (numeralText 16 value.toNat).length ≤ 8 :=
    length_numeralText_le _ (by omega) (by omega) (by omega)
  have hne : ∀ c ∈ numeralText 16 value.toNat, c ≠ 0 := numeralText_ne_zero (by omega) (by omega)
  rw [printHex, hargument]
  cases alternate with
  | false =>
    rw [if_pos rfl, if_pos rfl, itoa_sixteen hfuel, ok_bind, libPuts_storeList _ hne (by omega),
      ok_bind]
  | true =>
    have hstart : i32 (strlen fun i : ℕ ↦
        storeList call.convBuf 8 (numeralText 16 value.toNat ++ [0]) (8 + i)) =
          (numeralText 16 value.toNat).length := by
      rw [strlen_of_holdsString (storeList_holdsString _ 8 hne), min_eq_right (by omega),
        i32_of_range (by omega) (by omega)]
    have hpadded := padded_holdsString call.convBuf hlength hne
    have hshort : (List.replicate (8 - (numeralText 16 value.toNat).length) '0'.toUInt8 ++
        numeralText 16 value.toNat).length < fuel := by
      rw [List.length_append, List.length_replicate]
      omega
    have hshown := libPuts_eq hpadded hshort s.printed
    rw [if_neg Bool.noConfusion, if_neg Bool.noConfusion, itoa_sixteen hfuel, ok_bind]
    simp only [hstart]
    rw [padLoop_eq hlength (by omega), ok_bind, hshown, ok_bind]
    rfl

/-- An unsigned number is displayed as its numeral. -/
theorem printUnsigned_eq :
    printUnsigned call fuel s = .ok { s with
      esp := s.esp + 1
      printed := s.printed ++ numeralText 10 (call.args s.esp).toNat } := by
  have hlength : (numeralText 10 (call.args s.esp).toNat).length ≤ 10 :=
    length_numeralText_le _ (by omega) (by omega) (by omega)
  rw [printUnsigned, itoa_ten hfuel, ok_bind,
    libPuts_storeList _ (numeralText_ne_zero (by omega) (by omega)) (by omega), ok_bind]

/-- A signed number is displayed as its numeral, with a sign if it is negative. -/
theorem printSigned_eq :
    printSigned call fuel s = .ok { s with
      esp := s.esp + 1
      printed := s.printed ++ signedText (call.args s.esp) } := by
  have hchar : ∀ n, ∀ c ∈ numeralText 10 n, c ≠ 0 := fun n ↦
    numeralText_ne_zero (by omega) (by omega)
  have hlength : ∀ value : BitVec 32, (numeralText 10 value.toNat).length ≤ 10 := fun value ↦
    length_numeralText_le value (by omega) (by omega) (by omega)
  rw [printSigned, signedText]
  simp only
  by_cases hneg : (call.args s.esp).toInt < 0
  · have hlength := hlength (-call.args s.esp)
    have hchars : ∀ c ∈ '-'.toUInt8 :: numeralText 10 (-call.args s.esp).toNat, c ≠ 0 := by
      intro c hc
      rcases List.mem_cons.mp hc with rfl | hdigit
      · decide
      · exact hchar _ c hdigit
    have hshort : ('-'.toUInt8 :: numeralText 10 (-call.args s.esp).toNat).length < fuel := by
      rw [List.length_cons]
      omega
    have hshown := libPuts_storeList call.convBuf hchars hshort s.printed
    rw [if_pos hneg, if_pos hneg, itoa_ten hfuel, ok_bind, ← toNat_neg_of_neg hneg]
    rw [List.cons_append, storeList] at hshown
    exact congrArg (· >>= _) hshown
  · have hlength := hlength (call.args s.esp)
    rw [if_neg hneg, if_neg hneg, itoa_ten hfuel, ok_bind,
      libPuts_storeList _ (hchar _) (by omega), ok_bind]

end Numbers

end Displays

/-! ### Conversions -/

section Rounds

variable {call : PrintfCall} {fuel : ℕ} {s : Printing} {c : UInt8}

/-- The `#` that makes the next conversion print its alternate form. -/
theorem formatCharSwitch_hash (alternate : Bool) (hread : call.charAt s.buf = .ok '#'.toUInt8) :
    formatCharSwitch call fuel (alternate, s) =
      .ok ((true, { s with buf := s.buf + 1 }), true) := by
  rw [formatCharSwitch]
  simp only
  rw [hread, ok_bind, if_neg (by decide), if_pos rfl]

/-- Every other character ends the conversion, also one that is no conversion character. -/
theorem formatCharSwitch_eq (alternate : Bool) (hfuel : 32 < fuel)
    (hread : call.charAt s.buf = .ok c) (hc : c ≠ '#'.toUInt8) (string : List UInt8)
    (hstring : c = 's'.toUInt8 →
      HoldsString (call.pointee (call.args s.esp)) string ∧ string.length < fuel) :
    formatCharSwitch call fuel (alternate, s) = .ok ((alternate, { s with
      esp := s.esp + argumentCount c
      printed := s.printed ++ rendered alternate c (call.args s.esp) string }), false) := by
  rw [formatCharSwitch]
  simp only
  rw [hread, ok_bind, rendered]
  by_cases hpercent : c = '%'.toUInt8
  · subst hpercent
    rw [if_pos rfl, if_pos rfl]
    rfl
  rw [if_neg hpercent, if_neg hc, if_neg hpercent]
  by_cases hx : c = 'x'.toUInt8
  · subst hx
    rw [if_pos rfl, if_pos rfl, printHex_eq hfuel]
    rfl
  rw [if_neg hx, if_neg hx]
  by_cases hu : c = 'u'.toUInt8
  · subst hu
    rw [if_pos rfl, if_pos rfl, printUnsigned_eq hfuel]
    rfl
  rw [if_neg hu, if_neg hu]
  by_cases hd : c = 'd'.toUInt8
  · subst hd
    rw [if_pos rfl, if_pos rfl, printSigned_eq hfuel]
    rfl
  rw [if_neg hd, if_neg hd]
  by_cases hchar : c = 'c'.toUInt8
  · subst hchar
    rw [if_pos rfl, if_pos rfl]
    rfl
  rw [if_neg hchar, if_neg hchar]
  by_cases hs : c = 's'.toUInt8
  · obtain ⟨hholds, hlength⟩ := hstring hs
    subst hs
    rw [if_pos rfl, if_pos rfl, printString, libPuts_eq hholds hlength]
    rfl
  have hnone : argumentCount c = 0 := by
    refine if_neg fun hmem ↦ ?_
    simp only [List.map_cons, List.map_nil, List.mem_cons, List.not_mem_nil, or_false] at hmem
    tauto
  rw [if_neg hs, if_neg hs, hnone, List.append_nil]
  rfl

/-- A character outside of conversions is displayed. -/
theorem printfRound_char (hread : call.charAt s.buf = .ok c) (hzero : c ≠ 0)
    (hc : c ≠ '%'.toUInt8) :
    printfRound call fuel s =
      .ok ({ s with buf := s.buf + 1, printed := libPutc c s.printed }, true) := by
  rw [printfRound, hread, ok_bind, if_neg hzero, if_neg hc]
  rfl

/-- At a `%`, a round is the conversion that begins there. -/
theorem printfRound_percent (hread : call.charAt s.buf = .ok '%'.toUInt8) :
    printfRound call fuel s = (do
      let (_, s) ←
        doWhileChecked (formatCharSwitch call fuel) fuel (false, { s with buf := s.buf + 1 })
      .ok ({ s with buf := s.buf + 1 }, true)) := by
  rw [printfRound, hread, ok_bind, if_neg (by decide), if_pos rfl]
  cases doWhileChecked (formatCharSwitch call fuel) fuel (false, { s with buf := s.buf + 1 }) with
  | error stop => rfl
  | ok next => rfl

/-- The conversion that `buf` points to, and the argument that it takes. -/
structure Converts (call : PrintfCall) (s : Printing) (conversion : List Char)
    (value : BitVec 32) : Prop where
  format : conversion.map Char.toUInt8 <+: call.format.drop s.buf
  argument : call.args s.esp = value

/-- The variables after a round that has displayed `text` for a conversion of `count` characters. -/
def Printing.displays (s : Printing) (count : ℕ) (text : List UInt8) : Printing :=
  { buf := s.buf + count, esp := s.esp + 1, printed := s.printed ++ text }

/-- The characters are a numeral of a signed number, with a sign if it is negative. -/
inductive SpellsSigned : List UInt8 → ℤ → Prop
  | nonneg {text : List UInt8} {n : ℕ} (h : Spells 10 text n) : SpellsSigned text n
  | neg {text : List UInt8} {n : ℕ} (h : Spells 10 text n) (hpos : 0 < n) :
    SpellsSigned ('-'.toUInt8 :: text) (-n)

theorem Converts.charAt {conversion : List Char} {value : BitVec 32}
    (h : Converts call s conversion value) {i : ℕ} (hi : i < conversion.length) :
    call.charAt (s.buf + i) = .ok conversion[i].toUInt8 := by
  obtain ⟨rest, hrest⟩ := h.format
  have hget : call.format[s.buf + i]? = some conversion[i].toUInt8 := by
    rw [← List.getElem?_drop, ← hrest, List.getElem?_append_left (by rwa [List.length_map]),
      List.getElem?_map, List.getElem?_eq_getElem hi, Option.map_some]
  rw [PrintfCall.charAt, hget]

theorem signedText_spells (value : BitVec 32) : SpellsSigned (signedText value) value.toInt := by
  rw [signedText]
  by_cases hneg : value.toInt < 0
  · have hvalue : value.toInt = -(value.toInt.natAbs : ℤ) := by omega
    rw [if_pos hneg]
    nth_rewrite 2 [hvalue]
    exact .neg ((spells_iff (by omega) (by omega) _).mpr rfl) (by omega)
  · have hvalue : value.toInt = (value.toNat : ℤ) := by
      have hlt := value.isLt
      rw [BitVec.toInt_eq_toNat_cond] at hneg ⊢
      split at hneg
      · next hcond => rw [if_pos hcond]
      · omega
    rw [if_neg hneg, hvalue]
    exact .nonneg ((spells_iff (by omega) (by omega) _).mpr rfl)

/-- A round at `%#x`. -/
theorem printfRound_paddedHex {value : BitVec 32} (hfuel : 32 < fuel)
    (h : Converts call s ['%', '#', 'x'] value) :
    printfRound call fuel s = .ok (s.displays 3 (paddedHex value), true) := by
  obtain ⟨fuel, rfl⟩ : ∃ n, fuel = n + 2 := ⟨fuel - 2, by omega⟩
  have hpercent := h.charAt (i := 0) (by decide)
  have hhash := h.charAt (i := 1) (by decide)
  have hx := h.charAt (i := 2) (by decide)
  have hswitch := formatCharSwitch_eq (s := { s with buf := s.buf + 2 }) true hfuel hx (by decide)
    [] (fun hs ↦ absurd hs (by decide))
  rw [printfRound_percent hpercent, doWhileChecked, formatCharSwitch_hash false hhash]
  simp only
  rw [doWhileChecked, hswitch, h.argument]
  rfl

/-- A round at `%d`. -/
theorem printfRound_signed {value : BitVec 32} (hfuel : 32 < fuel)
    (h : Converts call s ['%', 'd'] value) :
    printfRound call fuel s = .ok (s.displays 2 (signedText value), true) := by
  obtain ⟨fuel, rfl⟩ : ∃ n, fuel = n + 1 := ⟨fuel - 1, by omega⟩
  have hpercent := h.charAt (i := 0) (by decide)
  have hd := h.charAt (i := 1) (by decide)
  have hswitch := formatCharSwitch_eq (s := { s with buf := s.buf + 1 }) false hfuel hd (by decide)
    [] (fun hs ↦ absurd hs (by decide))
  rw [printfRound_percent hpercent, doWhileChecked, hswitch, h.argument]
  rfl

/-- For every number and every radix, `itoa` leaves a string in its buffer and nothing else: the one
numeral of the number, of at most 32 digits. Wherever `%#x` stands in a format, `printf` displays
eight characters, the numeral of radix 16 behind zeros, and wherever `%d` stands, the numeral of the
signed number. -/
theorem itoa_printf_numerals (value : BitVec 32) {radix : BitVec 32} (hlow : 2 ≤ radix.toNat)
    (hhigh : radix.toNat ≤ 36) {fuel : ℕ} (hfuel : 32 < fuel) :
    (∃ text, Spells radix.toNat text value.toNat ∧
        (∀ text', Spells radix.toNat text' value.toNat → text' = text) ∧ text.length ≤ 32 ∧
        ∀ (memory : ℤ → UInt8) (buf : ℤ), ∃ memory',
          itoa value buf radix memory fuel = .ok memory' ∧
          HoldsString (fun i : ℕ ↦ memory' (buf + i)) text ∧
          ∀ a, a < buf ∨ buf + text.length < a → memory' a = memory a) ∧
      (∃ padding text, Spells 16 text value.toNat ∧ (∀ c ∈ padding, c = '0'.toUInt8) ∧
        (padding ++ text).length = 8 ∧
        ∀ call s, Converts call s ['%', '#', 'x'] value →
          printfRound call fuel s = .ok (s.displays 3 (padding ++ text), true)) ∧
      ∃ text, SpellsSigned text value.toInt ∧
        ∀ call s, Converts call s ['%', 'd'] value →
          printfRound call fuel s = .ok (s.displays 2 text, true) := by
  refine ⟨⟨numeralText radix.toNat value.toNat, ?_, fun text' ↦ ?_, ?_, fun memory buf ↦ ?_⟩,
    ⟨_, numeralText 16 value.toNat, ?_, fun c hc ↦ List.eq_of_mem_replicate hc,
      length_paddedHex value, fun call s h ↦ printfRound_paddedHex hfuel h⟩,
    ⟨signedText value, signedText_spells value, fun call s h ↦ printfRound_signed hfuel h⟩⟩
  · exact (spells_iff hlow hhigh _).mpr rfl
  · exact (spells_iff hlow hhigh text').mp
  · exact length_numeralText_le value hlow (by omega) (Nat.pow_le_pow_left hlow 32)
  · refine ⟨_, itoa_eq value buf hlow hhigh memory hfuel,
      storeList_holdsString memory buf (numeralText_ne_zero hlow hhigh), fun a ha ↦ ?_⟩
    exact storeList_outside (by rw [List.length_append, List.length_singleton]; omega)
  · exact (spells_iff (by omega) (by omega) _).mpr rfl

/-- The least number: what `printf("%d", INT_MIN)` displays in its one round. -/
theorem itoa_printf_numerals_least :
    ∃ text, SpellsSigned text (-2147483648) ∧
      printfRound ⟨['%', 'd'].map Char.toUInt8 ++ [0], fun _ ↦ 0x80000000, fun _ _ ↦ 0, fun _ ↦ 0⟩
        33 ⟨0, 0, []⟩ = .ok (⟨2, 1, text⟩, true) := by
  obtain ⟨-, -, text, hspells, hround⟩ :=
    @itoa_printf_numerals 0x80000000 36 (by decide) (by decide) 33 (by decide)
  exact ⟨text, hspells, hround _ ⟨0, 0, []⟩ ⟨List.prefix_append _ _, rfl⟩⟩

end Rounds

end Sp18.Kernel.Lib
