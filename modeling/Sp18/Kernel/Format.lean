import Sp18.Kernel.Printf

/-!
# Formats that end in a conversion

`printf` reads its format from left to right, and is either outside of conversions or, behind a `%`
and any number of `#`, inside of one (`Mode`). Its control point follows the mode (`resume`), and
what it displays is a function of the format and the arguments (`displayed`).

The switch inside of a conversion does not test for the end of the format. If the format ends there,
the terminator is taken for a conversion character, and `printf` goes on behind it (`resume_eq`).
-/

set_option autoImplicit false
set_option relaxedAutoImplicit false

namespace Sp18.Kernel.Lib

open Foundation

/-- Where the characters of a format so far end. -/
inductive Mode where
  | text
  | conversion (alternate : Bool)
  deriving DecidableEq

/-- One more character. -/
def Mode.next : Mode → UInt8 → Mode
  | .text, c => if c = '%'.toUInt8 then .conversion false else .text
  | .conversion _, c => if c = '#'.toUInt8 then .conversion true else .text

/-- Where a format ends. -/
def endMode (mode : Mode) (text : List UInt8) : Mode := text.foldl Mode.next mode

/-- The arguments that the conversions `%s` take, `esp` being the next one. -/
def stringArguments : Mode → ℕ → List UInt8 → List ℕ
  | _, _, [] => []
  | .text, esp, c :: rest => stringArguments (Mode.text.next c) esp rest
  | .conversion alternate, esp, c :: rest =>
    (if c = 's'.toUInt8 then [esp] else []) ++
      stringArguments ((Mode.conversion alternate).next c) (esp + argumentCount c) rest

/-- What a format displays, where `strings` are the strings that the arguments point to. -/
def displayed (args : ℕ → BitVec 32) (strings : ℕ → List UInt8) :
    Mode → ℕ → List UInt8 → List UInt8
  | _, _, [] => []
  | .text, esp, c :: rest =>
    (if c = '%'.toUInt8 then [] else [c]) ++
      displayed args strings (Mode.text.next c) esp rest
  | .conversion alternate, esp, c :: rest =>
    rendered alternate c (args esp) (strings esp) ++
      displayed args strings ((Mode.conversion alternate).next c) (esp + argumentCount c) rest

section Resuming

variable (call : PrintfCall) (fuel : ℕ)

/-- The rest of a run of `printf`, from the head of its loop or from `format_char_switch` on. -/
def resume (rounds : ℕ) : Mode → ℕ → Printing → Except Stop (List UInt8 × ℤ)
  | .text, _, s => do
    let s ← doWhileChecked (printfRound call fuel) rounds s
    .ok (s.printed, i32 s.buf)
  | .conversion alternate, switches, s => do
    let (_, s) ← doWhileChecked (formatCharSwitch call fuel) switches (alternate, s)
    let s ← doWhileChecked (printfRound call fuel) rounds { s with buf := s.buf + 1 }
    .ok (s.printed, i32 s.buf)

theorem printf_eq_resume : printf call fuel = resume call fuel fuel .text fuel ⟨0, 0, []⟩ := rfl

variable {call} {fuel} {rounds switches : ℕ} {s : Printing} {c : UInt8}

theorem resume_end (hread : call.charAt s.buf = .ok 0) :
    resume call fuel (rounds + 1) .text switches s = .ok (s.printed, i32 s.buf) := by
  rw [resume, doWhileChecked, printfRound, hread, ok_bind, if_pos rfl]
  rfl

theorem resume_char (hread : call.charAt s.buf = .ok c) (hzero : c ≠ 0)
    (hc : c ≠ '%'.toUInt8) :
    resume call fuel (rounds + 1) .text switches s =
      resume call fuel rounds .text switches
        { s with buf := s.buf + 1, printed := s.printed ++ [c] } := by
  rw [resume, doWhileChecked, printfRound_char hread hzero hc]
  rfl

theorem resume_percent (hread : call.charAt s.buf = .ok '%'.toUInt8) :
    resume call fuel (rounds + 1) .text switches s =
      resume call fuel rounds (.conversion false) fuel { s with buf := s.buf + 1 } := by
  rw [resume, doWhileChecked, printfRound_percent hread, resume]
  cases doWhileChecked (formatCharSwitch call fuel) fuel (false, { s with buf := s.buf + 1 }) with
  | error stop => rfl
  | ok next => rfl

theorem resume_hash (alternate : Bool) (hread : call.charAt s.buf = .ok '#'.toUInt8) :
    resume call fuel rounds (.conversion alternate) (switches + 1) s =
      resume call fuel rounds (.conversion true) switches { s with buf := s.buf + 1 } := by
  rw [resume, doWhileChecked, formatCharSwitch_hash alternate hread]
  rfl

theorem resume_conversion (alternate : Bool) (hfuel : 32 < fuel)
    (hread : call.charAt s.buf = .ok c) (hc : c ≠ '#'.toUInt8) (string : List UInt8)
    (hstring : c = 's'.toUInt8 →
      HoldsString (call.pointee (call.args s.esp)) string ∧ string.length < fuel) :
    resume call fuel rounds (.conversion alternate) (switches + 1) s =
      resume call fuel rounds .text switches
        { buf := s.buf + 1
          esp := s.esp + argumentCount c
          printed := s.printed ++ rendered alternate c (call.args s.esp) string } := by
  rw [resume, resume, doWhileChecked,
    formatCharSwitch_eq alternate hfuel hread hc string hstring]
  rfl

/-- Behind the end of the format there is nothing to read. -/
theorem resume_outside (hread : call.charAt s.buf = .error .outside) :
    resume call fuel (rounds + 1) .text switches s = .error .outside := by
  rw [resume, doWhileChecked, printfRound, hread]
  rfl

/-- A character that is read outside of conversions. -/
theorem resume_text_step (hread : call.charAt s.buf = .ok c) (hzero : c ≠ 0) :
    resume call fuel (rounds + 1) .text switches s =
      resume call fuel rounds (Mode.text.next c) (if c = '%'.toUInt8 then fuel else switches)
        { s with
          buf := s.buf + 1
          printed := s.printed ++ if c = '%'.toUInt8 then [] else [c] } := by
  rw [Mode.next]
  by_cases hc : c = '%'.toUInt8
  · rw [if_pos hc, if_pos hc, if_pos hc, List.append_nil, resume_percent (hc ▸ hread)]
  · rw [if_neg hc, if_neg hc, if_neg hc, resume_char hread hzero hc]

/-- A character that is read inside of a conversion. -/
theorem resume_conversion_step (alternate : Bool) (hfuel : 32 < fuel)
    (hread : call.charAt s.buf = .ok c) (string : List UInt8)
    (hstring : c = 's'.toUInt8 →
      HoldsString (call.pointee (call.args s.esp)) string ∧ string.length < fuel) :
    resume call fuel rounds (.conversion alternate) (switches + 1) s =
      resume call fuel rounds ((Mode.conversion alternate).next c) switches
        { buf := s.buf + 1
          esp := s.esp + argumentCount c
          printed := s.printed ++ rendered alternate c (call.args s.esp) string } := by
  rw [Mode.next]
  by_cases hc : c = '#'.toUInt8
  · subst hc
    have hnone : rendered alternate '#'.toUInt8 (call.args s.esp) string = [] := rfl
    rw [if_pos rfl, resume_hash alternate hread, hnone, List.append_nil]
    rfl
  · rw [if_neg hc, resume_conversion alternate hfuel hread hc string hstring]

end Resuming

section Reading

variable {call : PrintfCall} {buf : ℕ} {c : UInt8} {rest : List UInt8}

theorem charAt_of_drop (h : call.format.drop buf = c :: rest) : call.charAt buf = .ok c := by
  have hget : call.format[buf]? = some c := by
    rw [← Nat.add_zero buf, ← List.getElem?_drop, h, List.getElem?_cons_zero]
  rw [PrintfCall.charAt, hget]

theorem charAt_of_drop_nil (h : call.format.drop buf = []) :
    call.charAt buf = .error .outside := by
  rw [PrintfCall.charAt, List.getElem?_eq_none (List.drop_eq_nil_iff.mp h)]

theorem drop_next (h : call.format.drop buf = c :: rest) :
    call.format.drop (buf + 1) = rest := by
  rw [← List.drop_drop, h, List.drop_succ_cons, List.drop_zero]

end Reading

/-- A run of `printf` from a control point on, with `rest` still to be read. It ends with the format
where the format ends outside of conversions, and otherwise goes behind the terminator. -/
theorem resume_eq (call : PrintfCall) (strings : ℕ → List UInt8) {fuel : ℕ} (hfuel : 32 < fuel)
    {rest : List UInt8} {mode : Mode} {s : Printing} (hrest : call.format.drop s.buf = rest ++ [0])
    (hnonzero : ∀ c ∈ rest, c ≠ 0)
    (hargs : ∀ k ∈ stringArguments mode s.esp rest,
      HoldsString (call.pointee (call.args k)) (strings k) ∧ (strings k).length < fuel)
    {rounds switches : ℕ} (hrounds : rest.length < rounds) (hswitches : rest.length < switches)
    (henough : rest.length < fuel) :
    resume call fuel rounds mode switches s =
      if endMode mode rest = .text then
        .ok (s.printed ++ displayed call.args strings mode s.esp rest, i32 (s.buf + rest.length))
      else .error .outside := by
  induction rest generalizing mode s rounds switches with
  | nil =>
    rw [List.length_nil] at hrounds hswitches
    obtain ⟨rounds, rfl⟩ := Nat.exists_eq_add_one.mpr hrounds
    obtain ⟨switches, rfl⟩ := Nat.exists_eq_add_one.mpr hswitches
    have hread : call.charAt s.buf = .ok 0 := charAt_of_drop hrest
    cases mode with
    | text =>
      rw [resume_end hread, endMode, List.foldl_nil, if_pos rfl, displayed, List.append_nil,
        List.length_nil, Nat.cast_zero, add_zero]
    | conversion alternate =>
      rw [resume_conversion alternate hfuel hread (by decide) [] (fun hs ↦ absurd hs (by decide)),
        endMode, List.foldl_nil, if_neg Mode.noConfusion]
      exact resume_outside (charAt_of_drop_nil (drop_next hrest))
  | cons c rest ih =>
    rw [List.length_cons] at hrounds hswitches henough
    obtain ⟨rounds, rfl⟩ := Nat.exists_eq_add_one.mpr (Nat.zero_lt_of_lt hrounds)
    obtain ⟨switches, rfl⟩ := Nat.exists_eq_add_one.mpr (Nat.zero_lt_of_lt hswitches)
    have hread : call.charAt s.buf = .ok c := charAt_of_drop hrest
    have hnext : call.format.drop (s.buf + 1) = rest ++ [0] := drop_next hrest
    have hlater : ∀ c ∈ rest, c ≠ 0 := fun c' hc' ↦ hnonzero c' (List.mem_cons_of_mem c hc')
    have hreturn : (s.buf + ((rest.length + 1 : ℕ) : ℤ)) = ((s.buf + 1 : ℕ) : ℤ) + rest.length := by
      push_cast
      ring
    rw [endMode, List.foldl_cons, ← endMode, List.length_cons, hreturn]
    cases mode with
    | text =>
      rw [stringArguments] at hargs
      rw [resume_text_step hread (hnonzero c List.mem_cons_self), displayed, ← List.append_assoc]
      have hfuels : rest.length < if c = '%'.toUInt8 then fuel else switches + 1 := by
        split_ifs
        · omega
        · omega
      refine ih ?_ hlater ?_ ?_ hfuels ?_
      exacts [hnext, hargs, by omega, by omega]
    | conversion alternate =>
      have hstring : c = 's'.toUInt8 →
          HoldsString (call.pointee (call.args s.esp)) (strings s.esp) ∧
            (strings s.esp).length < fuel := by
        intro hs
        refine hargs s.esp (List.mem_append_left _ ?_)
        rw [if_pos hs]
        exact List.mem_singleton_self _
      have hargs := fun k hk ↦ hargs k (List.mem_append_right _ hk)
      rw [resume_conversion_step alternate hfuel hread _ hstring, displayed, ← List.append_assoc]
      refine ih ?_ hlater ?_ ?_ ?_ ?_
      exacts [hnext, hargs, by omega, by omega, by omega]

section Formats

variable (call : PrintfCall) {text : List UInt8} (hformat : call.format = text ++ [0])
  (hnonzero : ∀ c ∈ text, c ≠ 0)
include hformat hnonzero

/-- What `printf` does with a format, once it has enough fuel. -/
theorem printf_eq (strings : ℕ → List UInt8)
    (hargs : ∀ k ∈ stringArguments .text 0 text,
      HoldsString (call.pointee (call.args k)) (strings k)) :
    ∃ enough, ∀ fuel ≥ enough, printf call fuel =
      if endMode .text text = .text then
        .ok (displayed call.args strings .text 0 text, i32 text.length)
      else .error .outside := by
  let longest := (stringArguments .text 0 text).toFinset.sup fun k ↦ (strings k).length
  refine ⟨33 + text.length + longest, fun fuel hfuel ↦ ?_⟩
  have hstrings : ∀ k ∈ stringArguments .text 0 text,
      HoldsString (call.pointee (call.args k)) (strings k) ∧ (strings k).length < fuel := by
    intro k hk
    have hle : (strings k).length ≤ longest :=
      Finset.le_sup (f := fun k ↦ (strings k).length) (List.mem_toFinset.mpr hk)
    exact ⟨hargs k hk, by omega⟩
  have hshort : text.length < fuel := by omega
  have hstart : call.format.drop (⟨0, 0, []⟩ : Printing).buf = text ++ [0] := hformat
  rw [printf_eq_resume, resume_eq call strings (by omega) hstart hnonzero hstrings hshort hshort
    hshort, List.nil_append, Nat.cast_zero, zero_add]

/-- `printf` ends with the format, without reading behind its terminator, and returns its length
exactly if the format does not end inside of a conversion and its length is a 32-bit integer. -/
theorem printf_within_format_iff
    (hargs : ∀ k ∈ stringArguments .text 0 text,
      ∃ name, HoldsString (call.pointee (call.args k)) name) :
    (∃ enough printed, ∀ fuel ≥ enough, printf call fuel = .ok (printed, (text.length : ℤ))) ↔
      endMode .text text = .text ∧ text.length < 2 ^ 31 := by
  choose! strings hstrings using hargs
  obtain ⟨enough, hrun⟩ := printf_eq call hformat hnonzero strings hstrings
  constructor
  · rintro ⟨enough', printed, hends⟩
    have hsame := (hends _ (le_max_right enough enough')).symm.trans
      (hrun _ (le_max_left enough enough'))
    by_cases hmode : endMode .text text = .text
    · rw [if_pos hmode, Except.ok.injEq, Prod.mk.injEq] at hsame
      have hlength := hsame.2
      unfold i32 at hlength
      exact ⟨hmode, by omega⟩
    · rw [if_neg hmode] at hsame
      cases hsame
  · rintro ⟨hmode, hlength⟩
    refine ⟨enough, displayed call.args strings .text 0 text, fun fuel hfuel ↦ ?_⟩
    rw [hrun fuel hfuel, if_pos hmode, i32_of_range (by omega) (by omega)]

end Formats

/-- A format of one conversion, `%s`. -/
theorem printf_within_format_string :
    ∃ enough printed, ∀ fuel ≥ enough,
      printf ⟨['%', 's'].map Char.toUInt8 ++ [0], fun _ ↦ 0x804800,
        fun _ i ↦ ['A'.toUInt8].getD i 0, fun _ ↦ 0⟩ fuel = .ok (printed, 2) := by
  have hargument : HoldsString (fun i ↦ ['A'.toUInt8].getD i 0) ['A'.toUInt8] :=
    HoldsString.getD_zero (by decide +kernel)
  exact (@printf_within_format_iff _ (['%', 's'].map Char.toUInt8) rfl (by decide +kernel)
    fun _ _ ↦ ⟨_, hargument⟩).mpr (by decide +kernel)

/-- The format `100%` ends inside of a conversion, and `printf` reads on behind it. -/
theorem printf_not_always_within_format :
    ¬∃ enough printed, ∀ fuel ≥ enough,
      printf ⟨['1', '0', '0', '%'].map Char.toUInt8 ++ [0], fun _ ↦ 0, fun _ _ ↦ 0, fun _ ↦ 0⟩
        fuel = .ok (printed, 4) := by
  rintro ⟨enough', printed, hends⟩
  obtain ⟨enough, hrun⟩ := printf_eq
    ⟨['1', '0', '0', '%'].map Char.toUInt8 ++ [0], fun _ ↦ 0, fun _ _ ↦ 0, fun _ ↦ 0⟩ rfl
    (by decide +kernel) (fun _ ↦ []) (fun k hk ↦ absurd hk List.not_mem_nil)
  have hsame := (hends _ (le_max_right enough enough')).symm.trans
    (hrun _ (le_max_left enough enough'))
  rw [if_neg (by decide +kernel)] at hsame
  cases hsame

end Sp18.Kernel.Lib
