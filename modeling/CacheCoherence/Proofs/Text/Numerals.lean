import CacheCoherence.Text.Numeral
import Mathlib.Data.List.Forall2
import Mathlib.Data.Nat.Digits.Defs
import Mathlib.Tactic.Ring

/-!
# Numerals — the numbers that texts stand for

A numeral is an optional plus sign and at least one digit. Its value is that of its digits in
positional notation, and a numeral is read just if its value is below the bound, whatever values
the digits come to on the way.
-/

namespace CacheCoherence.Text

/-- The character is the digit of value `d`, in either case if it is a letter. -/
def IsDigit (c : Char) (d : Nat) : Prop := c = d.digitChar ∨ c = d.digitChar.toUpper

/-- The characters are digits of the radix, and the number that they stand for is `n`. -/
def Digits (radix : Nat) (cs : List Char) (n : Nat) : Prop :=
  ∃ values, List.Forall₂ IsDigit cs values ∧ (∀ d ∈ values, d < radix) ∧
    Nat.ofDigits radix values.reverse = n

/-- The characters are an optional plus sign and digits of the number `n`. -/
def Numeral (radix : Nat) (cs : List Char) (n : Nat) : Prop :=
  ∃ digits, digits ≠ [] ∧ (cs = digits ∨ cs = '+' :: digits) ∧ Digits radix digits n

variable {radix bound v n d : Nat} {c : Char} {cs : List Char}

/-! ## Digits -/

theorem digitValue_digitChar : ∀ d < 16,
    digitValue d.digitChar = some d ∧ digitValue d.digitChar.toUpper = some d := by
  decide

theorem ofNat_digit : ∀ d < 16,
    (d < 10 → Char.ofNat (48 + d) = d.digitChar) ∧
      (10 ≤ d → Char.ofNat (87 + d) = d.digitChar ∧ Char.ofNat (55 + d) = d.digitChar.toUpper) := by
  decide

theorem isDigit_of_digitValue (hd : d < 16) (h : digitValue c = some d) : IsDigit c d := by
  obtain ⟨hnumber, hletter⟩ := ofNat_digit d hd
  have hc : Char.ofNat c.toNat = c := Char.ofNat_toNat c
  unfold digitValue at h
  split at h
  · next hrange =>
    obtain ⟨hlow, hhigh⟩ : 48 ≤ c.toNat ∧ c.toNat ≤ 57 := hrange
    have hvalue : c.toNat - 48 = d := Option.some.inj h
    left
    rw [← hnumber (by omega), ← hc]
    congr 1
    omega
  · split at h
    · next hrange =>
      obtain ⟨hlow, hhigh⟩ : 97 ≤ c.toNat ∧ c.toNat ≤ 122 := hrange
      have hvalue : c.toNat - 97 + 10 = d := Option.some.inj h
      left
      rw [← (hletter (by omega)).1, ← hc]
      congr 1
      omega
    · split at h
      · next hrange =>
        obtain ⟨hlow, hhigh⟩ : 65 ≤ c.toNat ∧ c.toNat ≤ 90 := hrange
        have hvalue : c.toNat - 65 + 10 = d := Option.some.inj h
        right
        rw [← (hletter (by omega)).2, ← hc]
        congr 1
        omega
      · cases h

theorem digit?_eq_some (hradix : radix ≤ 16) :
    digit? radix c = some d ↔ IsDigit c d ∧ d < radix := by
  rw [digit?, Option.filter_eq_some_iff, decide_eq_true_eq]
  constructor
  · rintro ⟨hvalue, hlt⟩
    exact ⟨isDigit_of_digitValue (by omega) hvalue, hlt⟩
  · rintro ⟨hdigit, hlt⟩
    obtain ⟨hlower, hupper⟩ := digitValue_digitChar d (by omega)
    refine ⟨?_, hlt⟩
    rcases hdigit with rfl | rfl
    · exact hlower
    · exact hupper

/-! ## Numbers -/

/-- The number that digits give when they are read on from `v`. -/
def readOn (radix v : Nat) (values : List Nat) : Nat :=
  values.foldl (fun v d => v * radix + d) v

theorem le_readOn (hradix : 0 < radix) (v : Nat) (values : List Nat) :
    v ≤ readOn radix v values := by
  induction values generalizing v with
  | nil => exact Nat.le_refl v
  | cons d rest ih =>
    have hle : v ≤ v * radix := Nat.le_mul_of_pos_right v hradix
    have := ih (v * radix + d)
    rw [readOn, List.foldl_cons]
    rw [readOn] at this
    omega

theorem readOn_eq (radix v : Nat) (values : List Nat) :
    readOn radix v values = v * radix ^ values.length + Nat.ofDigits radix values.reverse := by
  induction values generalizing v with
  | nil => simp [readOn]
  | cons d rest ih =>
    have hrest := ih (v * radix + d)
    rw [readOn] at hrest
    rw [readOn, List.foldl_cons, hrest, List.reverse_cons, Nat.ofDigits_append,
      Nat.ofDigits_singleton, List.length_reverse, List.length_cons, pow_succ]
    ring

/-- Digits are read just if the number that they give is below the bound: on the way to it the
numbers only grow. -/
theorem readDigits_eq_ok (hpos : 0 < radix) (hradix : radix ≤ 16) :
    readDigits radix bound v cs = .ok n ↔
      (∃ values, List.Forall₂ IsDigit cs values ∧ (∀ d ∈ values, d < radix) ∧
        readOn radix v values = n) ∧ (cs = [] ∨ n < bound) := by
  induction cs generalizing v with
  | nil => simp [readDigits, readOn]
  | cons c rest ih =>
    unfold readDigits
    cases hdigit : digit? radix c with
    | none =>
      constructor
      · intro h
        cases h
      · rintro ⟨⟨values, hvalues, hlt, -⟩, -⟩
        obtain ⟨d, rest', hd, -, rfl⟩ := List.forall₂_cons_left_iff.1 hvalues
        have hsome := (digit?_eq_some hradix).2 ⟨hd, hlt d List.mem_cons_self⟩
        rw [hdigit] at hsome
        cases hsome
    | some d =>
      obtain ⟨hd, hlt⟩ := (digit?_eq_some hradix).1 hdigit
      have hfirst : (∃ values, List.Forall₂ IsDigit (c :: rest) values ∧ (∀ d ∈ values, d < radix) ∧
            readOn radix v values = n) ↔
          ∃ values, List.Forall₂ IsDigit rest values ∧ (∀ d ∈ values, d < radix) ∧
            readOn radix (v * radix + d) values = n := by
        constructor
        · rintro ⟨values, hvalues, hall, hn⟩
          obtain ⟨d', rest', hd', hrest', rfl⟩ := List.forall₂_cons_left_iff.1 hvalues
          have hsome := (digit?_eq_some hradix).2 ⟨hd', hall d' List.mem_cons_self⟩
          obtain rfl : d = d' := Option.some.inj (hdigit.symm.trans hsome)
          exact ⟨rest', hrest', fun x hx => hall x (List.mem_cons_of_mem d hx), hn⟩
        · rintro ⟨values, hvalues, hall, hn⟩
          exact ⟨d :: values, .cons hd hvalues, List.forall_mem_cons.2 ⟨hlt, hall⟩, hn⟩
      dsimp only
      rw [hfirst]
      by_cases hbelow : v * radix + d < bound
      · rw [if_pos hbelow, ih]
        constructor
        · rintro ⟨⟨values, hvalues, hall, hn⟩, hend⟩
          refine ⟨⟨values, hvalues, hall, hn⟩, .inr ?_⟩
          rcases hend with rfl | hend
          · cases hvalues
            exact hn ▸ hbelow
          · exact hend
        · rintro ⟨hnumber, hend⟩
          exact ⟨hnumber, .inr (hend.resolve_left (List.cons_ne_nil c rest))⟩
      · rw [if_neg hbelow]
        constructor
        · intro h
          cases h
        · rintro ⟨⟨values, -, -, rfl⟩, hend⟩
          have hle := le_readOn hpos (v * radix + d) values
          have hlt := hend.resolve_left (List.cons_ne_nil c rest)
          omega

/-- A plus sign is no digit. -/
theorem not_digits_plus (hradix : radix ≤ 16) : ¬ Digits radix ('+' :: cs) n := by
  rintro ⟨values, hvalues, hlt, -⟩
  obtain ⟨d, rest, hd, -, rfl⟩ := List.forall₂_cons_left_iff.1 hvalues
  have hsome := (digit?_eq_some hradix).2 ⟨hd, hlt d List.mem_cons_self⟩
  cases hsome

theorem numeral_signed (hradix : radix ≤ 16) :
    Numeral radix ('+' :: cs) n ↔ cs ≠ [] ∧ Digits radix cs n := by
  constructor
  · rintro ⟨digits, hne, rfl | heq, hdigits⟩
    · exact absurd hdigits (not_digits_plus hradix)
    · cases heq
      exact ⟨hne, hdigits⟩
  · rintro ⟨hne, hdigits⟩
    exact ⟨cs, hne, .inr rfl, hdigits⟩

theorem numeral_unsigned (hsign : ∀ digits, cs ≠ '+' :: digits) :
    Numeral radix cs n ↔ cs ≠ [] ∧ Digits radix cs n := by
  constructor
  · rintro ⟨digits, hne, rfl | heq, hdigits⟩
    · exact ⟨hne, hdigits⟩
    · exact absurd heq (hsign digits)
  · rintro ⟨hne, hdigits⟩
    exact ⟨cs, hne, .inl rfl, hdigits⟩

theorem readDigits_zero_eq_ok (hpos : 0 < radix) (hradix : radix ≤ 16) (hcs : cs ≠ []) :
    readDigits radix bound 0 cs = .ok n ↔ Digits radix cs n ∧ n < bound := by
  rw [readDigits_eq_ok hpos hradix, or_iff_right hcs]
  simp only [readOn_eq, Nat.zero_mul, Nat.zero_add, Digits]

/-- A numeral is read as the number that it stands for, if that is below the bound. -/
theorem readNat_eq_ok (hpos : 0 < radix) (hradix : radix ≤ 16) :
    readNat radix bound cs = .ok n ↔ Numeral radix cs n ∧ n < bound := by
  unfold readNat
  split
  · simp [Numeral]
  · simp [numeral_signed hradix]
  · next digits hne =>
    rw [readDigits_zero_eq_ok hpos hradix hne, numeral_signed hradix, and_iff_right hne]
  · next hne _ hsign =>
    rw [readDigits_zero_eq_ok hpos hradix hne, numeral_unsigned hsign, and_iff_right hne]

end CacheCoherence.Text
