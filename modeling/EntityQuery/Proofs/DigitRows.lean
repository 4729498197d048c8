import EntityQuery.Number.Whole
import EntityQuery.Proofs.NumeralSpelling
import Mathlib.Data.Bool.AllAny
import Mathlib.Data.Nat.Digits.Lemmas
import Mathlib.Tactic.Ring

/-!
# Rows of digits

Digits in a row are a number in their radix. Read one by one they make its value as long as that
stays within the limit, and the digits that a number is written with make that number.

* `Row`: some characters, all of them digits of a sort.
* `of_isHexDigit`: what holds of all digits of the largest radix.
* `valueIn`: the value of a row of digits in a radix.
* `readDigits_row`: a row of digits is read as its value.
* `valueIn_toDigits`: a number is the value of the digits that it is written with.
-/

namespace EntityQuery.Grammar

open EntityQuery.Number

/-! ## Rows -/

/-- At least one character, and all of them digits of some sort. -/
structure Row (isSort : Char → Bool) (digits : List Char) : Prop where
  ne_nil : digits ≠ []
  all : ∀ c ∈ digits, isSort c = true

theorem Row.isEmpty {isSort : Char → Bool} {digits : List Char} (h : Row isSort digits) :
    digits.isEmpty = false := by
  simpa using h.ne_nil

theorem row_of_head {isSort : Char → Bool} {text : List Char}
    (h : text.head?.any isSort = true) : Row isSort (text.takeWhile isSort) := by
  refine ⟨?_, fun _ => List.mem_takeWhile_imp⟩
  cases text with
  | nil => cases h
  | cons c text =>
    have hc : isSort c = true := h
    simp [hc]

/-! ## Hexadecimal digits -/

/-- The hexadecimal digits, the letters in either case. -/
def hexDigits : List Char := "0123456789abcdefABCDEF".toList

theorem mem_hexDigits {c : Char} (h : isHexDigit c = true) : c ∈ hexDigits := by
  have hrange (low count : Nat) (hall : ∀ n < count, Char.ofNat (low + n) ∈ hexDigits)
      (hlow : low ≤ c.toNat) (hhigh : c.toNat < low + count) : c ∈ hexDigits := by
    have hmem := hall (c.toNat - low) (by omega)
    rw [Nat.add_sub_cancel' hlow, Char.ofNat_toNat] at hmem
    exact hmem
  simp only [isHexDigit, digit?] at h
  split at h
  · rename_i value hvalue
    split at hvalue
    · rename_i hdigit
      have hbound := toNat_of_isDigit hdigit
      exact hrange 48 10 (by decide) (by omega) (by omega)
    · split at hvalue
      · rename_i hsmall
        simp only [Bool.and_eq_true, decide_eq_true_eq] at hsmall
        exact hrange 97 6 (by decide) (by omega) (by omega)
      · split at hvalue
        · rename_i hcapital
          simp only [Bool.and_eq_true, decide_eq_true_eq] at hcapital
          exact hrange 65 6 (by decide) (by omega) (by omega)
        · cases hvalue
  · cases h

/-- What holds of the hexadecimal digits can be looked up. -/
theorem of_isHexDigit {p : Char → Prop} [DecidablePred p] {c : Char} (hc : isHexDigit c = true)
    (h : (hexDigits.all fun d => decide (p d)) = true) : p c :=
  List.all_iff_forall_prop.mp h c (mem_hexDigits hc)

/-! ## Values of digits -/

/-- The value of a digit; letters in either case stand for ten to fifteen. -/
def digitValue (c : Char) : Nat := "0123456789abcdef".toList.idxOf c.toLower

/-- The value of a row of digits in a radix. -/
def valueIn (radix : Nat) (digits : List Char) : Nat :=
  Nat.ofDigits radix (digits.reverse.map digitValue)

@[simp] theorem valueIn_nil (radix : Nat) : valueIn radix [] = 0 := rfl

theorem valueIn_cons (radix : Nat) (c : Char) (digits : List Char) :
    valueIn radix (c :: digits) = digitValue c * radix ^ digits.length + valueIn radix digits := by
  simp only [valueIn, List.reverse_cons, List.map_append, List.map_cons, List.map_nil,
    Nat.ofDigits_append, Nat.ofDigits_singleton, List.length_map, List.length_reverse]
  rw [Nat.mul_comm, Nat.add_comm]

theorem isHexDigit_of_isDigit {c : Char} (h : c.isDigit = true) : isHexDigit c = true := by
  have hbound := toNat_of_isDigit h
  have hlt : c.toNat - 48 < 16 := by omega
  simp [isHexDigit, digit?, h, hlt]

theorem digit?_ten {c : Char} (h : c.isDigit = true) : digit? 10 c = some (digitValue c) :=
  of_isHexDigit (p := fun d => d.isDigit = true → digit? 10 d = some (digitValue d))
    (isHexDigit_of_isDigit h) (by decide) h

theorem digit?_sixteen {c : Char} (h : isHexDigit c = true) :
    digit? 16 c = some (digitValue c) :=
  of_isHexDigit (p := fun d => digit? 16 d = some (digitValue d)) h (by decide)

theorem digit?_eight {c : Char} (h : c.isDigit = true) :
    digit? 8 c = if c = '8' ∨ c = '9' then none else some (digitValue c) :=
  of_isHexDigit
    (p := fun d => d.isDigit = true →
      digit? 8 d = if d = '8' ∨ d = '9' then none else some (digitValue d))
    (isHexDigit_of_isDigit h) (by decide) h

/-! ## Reading -/

section

open Number.Whole

variable {radix limit : Nat} {excess : Problem} {digits : List Char}

/-- Digits are read to the end as long as the value stays at or below the limit. -/
theorem readDigits_row (hradix : 0 < radix)
    (hdigits : ∀ c ∈ digits, digit? radix c = some (digitValue c)) {start : Nat}
    (hstart : start ≤ limit) :
    readDigits radix limit excess start digits =
      if start * radix ^ digits.length + valueIn radix digits ≤ limit then
        .ok (start * radix ^ digits.length + valueIn radix digits)
      else .error excess := by
  induction digits generalizing start with
  | nil => simp [readDigits, hstart]
  | cons c digits ih =>
    have hrest : ∀ d ∈ digits, digit? radix d = some (digitValue d) :=
      fun d hd => hdigits d (List.mem_cons_of_mem c hd)
    have hvalue : start * radix ^ (c :: digits).length + valueIn radix (c :: digits)
        = (start * radix + digitValue c) * radix ^ digits.length + valueIn radix digits := by
      rw [valueIn_cons, List.length_cons, pow_succ]
      ring
    rw [readDigits, hdigits c List.mem_cons_self, hvalue]
    simp only
    split
    · rename_i hexcess
      -- The digits that follow only make the value greater.
      have hgrows : start * radix + digitValue c
          ≤ (start * radix + digitValue c) * radix ^ digits.length :=
        Nat.le_mul_of_pos_right _ (Nat.pow_pos hradix)
      rw [if_neg (by omega)]
    · rename_i hfits
      exact ih hrest (by omega)

/-- A character that is no digit is a fault, if not the value before it. -/
theorem readDigits_invalid {start : Nat} (h : ∃ c ∈ digits, digit? radix c = none) :
    ∃ problem, readDigits radix limit excess start digits = .error problem := by
  induction digits generalizing start with
  | nil =>
    obtain ⟨c, hc, -⟩ := h
    cases hc
  | cons c digits ih =>
    cases hc : digit? radix c with
    | none => exact ⟨.invalidDigit, by simp [readDigits, hc]⟩
    | some digit =>
      by_cases hexcess : limit < start * radix + digit
      · exact ⟨excess, by simp [readDigits, hc, hexcess]⟩
      · have hrest : ∃ d ∈ digits, digit? radix d = none := by
          obtain ⟨d, hd, hnone⟩ := h
          rcases List.mem_cons.mp hd with rfl | hd
          · rw [hc] at hnone
            cases hnone
          · exact ⟨d, hd, hnone⟩
        obtain ⟨problem, hread⟩ : ∃ problem,
            readDigits radix limit excess (start * radix + digit) digits = .error problem :=
          ih hrest
        exact ⟨problem, by simp [readDigits, hc, hexcess, hread]⟩

end

/-! ## Writing -/

theorem digitValue_digitChar : ∀ d < 10, digitValue (Nat.digitChar d) = d := by
  decide

theorem valueIn_append (radix : Nat) (front digits : List Char) :
    valueIn radix (front ++ digits)
      = valueIn radix front * radix ^ digits.length + valueIn radix digits := by
  simp only [valueIn, List.reverse_append, List.map_append, Nat.ofDigits_append, List.length_map,
    List.length_reverse]
  ring

/-- A number is the value of its digits. -/
theorem valueIn_toDigits (number : Nat) : valueIn 10 (Nat.toDigits 10 number) = number := by
  induction number using Nat.strongRecOn with
  | ind number ih =>
    rw [Nat.toDigits_eq_if (by decide)]
    split
    · rename_i hsmall
      rw [valueIn_cons, digitValue_digitChar number hsmall]
      simp
    · have hfront := ih (number / 10) (by omega)
      rw [valueIn_append, hfront, valueIn_cons, digitValue_digitChar (number % 10) (by omega)]
      simp only [List.length_singleton, List.length_nil, pow_one, pow_zero, valueIn_nil]
      omega

theorem row_toDigits (number : Nat) : Row Char.isDigit (Nat.toDigits 10 number) :=
  ⟨Nat.toDigits_ne_nil, fun _ => Nat.isDigit_of_mem_toDigits (by decide) (by decide)⟩

/-- The first digit of a positive number is no zero. -/
theorem toDigits_head {number : Nat} (h : 0 < number) :
    (Nat.toDigits 10 number).head? ≠ some '0' := by
  induction number using Nat.strongRecOn with
  | ind number ih =>
    rw [Nat.toDigits_eq_if (by decide)]
    split
    · rename_i hsmall
      have hall : ∀ d < 10, 0 < d → Nat.digitChar d ≠ '0' := by decide
      simpa using hall number hsmall h
    · have hfront := ih (number / 10) (by omega) (by omega)
      rwa [List.head?_append_of_ne_nil _ Nat.toDigits_ne_nil]

end EntityQuery.Grammar
