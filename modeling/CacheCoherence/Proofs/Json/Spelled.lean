import CacheCoherence.Json.Printer
import CacheCoherence.Json.Reader
import Mathlib.Data.List.TakeDrop
import Mathlib.Data.List.TakeWhile

/-!
# Spelled — the tokens of a written text

What is written is cut into the tokens that were written. A token that stands for itself, or a
string, ends by itself; a word ends only with the character behind it, so texts may be put one
behind the other where the second begins with a character that ends a word.
-/

namespace CacheCoherence.Json

/-- Whether a character ends a word. -/
def isBreak (c : Char) : Bool := isSpace c || c == '"' || (punctuation? c).isSome

theorem isBreak_eq_false {c : Char} :
    isBreak c = false ↔ isSpace c = false ∧ c ≠ '"' ∧ punctuation? c = none := by
  simp [isBreak, and_assoc]

/-- The characters `cs` are cut into the tokens `ts`, whatever is read before them. -/
def Spells (cs : List Char) (ts : List Token) : Prop :=
  ∀ past : List Token, ∃ l, cs.foldlM Lexer.push { tokens := past } = some l ∧
    l.finishWord = some { tokens := ts.reverse ++ past }

variable {c : Char} {cs cs' : List Char} {t : Token} {ts ts' past : List Token} {l m : Lexer}

namespace Lexer

/-- Where a word may end, a character that ends one finds nothing begun. -/
theorem push_break (hc : isBreak c = true) (h : l.finishWord = some m) : l.push c = m.push c := by
  have hdone : m.mode = .between := by
    rw [finishWord] at h
    split at h
    · next hmode =>
      cases h
      exact hmode
    · obtain ⟨v, -, rfl⟩ := Option.map_eq_some_iff.1 h
      rfl
    · cases h
  have hagain : m.finishWord = some m := by rw [finishWord, hdone]
  have houtside : l.outside c = m.outside c := by
    rw [outside, outside, h, hagain]
    split
    · rfl
    · split
      · rfl
      · next hspace hquote =>
        have hpunctuation : (punctuation? c).isSome = true := by
          simpa [isBreak, hspace, hquote] using hc
        obtain ⟨t, ht⟩ := Option.isSome_iff_exists.1 hpunctuation
        simp only [ht]
  have hm : m.push c = m.outside c := by rw [push, hdone]
  rw [hm, ← houtside, push]
  rw [finishWord] at h
  split at h <;> first | cases h; done | simp only [*]

theorem push_space (hc : isSpace c = true) :
    push { tokens := past } c = some { tokens := past } := by
  simp only [push, outside, hc, if_pos, finishWord]

theorem push_punctuation (hc : punctuation? c = some t) :
    push { tokens := past } c = some { tokens := t :: past } := by
  have hother : isSpace c = false ∧ c ≠ '"' := by
    unfold punctuation? at hc
    split at hc <;> first | decide | cases hc
  simp [push, outside, hother, hc, finishWord]

/-- Other characters go on with the word. -/
theorem push_word {w chars : List Char} (h : ∀ c ∈ w, isBreak c = false) :
    w.foldlM push { tokens := past, mode := .word chars }
      = some { tokens := past, mode := .word (w.reverse ++ chars) } := by
  induction w generalizing chars with
  | nil => rfl
  | cons c rest ih =>
    obtain ⟨hspace, hquote, hpunctuation⟩ := isBreak_eq_false.1 (h c List.mem_cons_self)
    have hone : push { tokens := past, mode := .word chars } c
        = some { tokens := past, mode := .word (c :: chars) } := by
      simp [push, outside, hspace, hquote, hpunctuation]
    rw [List.foldlM_cons, hone, Option.bind_eq_bind, Option.bind_some,
      ih fun c' hc' => h c' (List.mem_cons_of_mem c hc')]
    simp

end Lexer

namespace Spells

theorem nil : Spells [] [] := fun past => ⟨{ tokens := past }, rfl, rfl⟩

/-- The tokens of a text that is spelled. -/
theorem tokens_eq (h : Spells cs ts) : tokens? cs = some ts := by
  obtain ⟨l, hl, hdone⟩ := h []
  have hl' : cs.foldlM Lexer.push {} = some l := hl
  rw [tokens?, hl']
  simp [hdone]

/-- A text goes on behind another with a character that ends a word. -/
theorem append (hc : isBreak c = true) (h : Spells cs ts) (h' : Spells (c :: cs') ts') :
    Spells (cs ++ c :: cs') (ts ++ ts') := by
  intro past
  obtain ⟨l, hl, hdone⟩ := h past
  obtain ⟨l', hl', hdone'⟩ := h' (ts.reverse ++ past)
  refine ⟨l', ?_, by simpa using hdone'⟩
  rw [List.foldlM_cons] at hl'
  rw [List.foldlM_append, hl, Option.bind_eq_bind, Option.bind_some, List.foldlM_cons,
    Lexer.push_break hc hdone, hl']

theorem space (hc : isSpace c = true) (h : Spells cs ts) : Spells (c :: cs) ts := by
  intro past
  obtain ⟨l, hl, hdone⟩ := h past
  refine ⟨l, ?_, hdone⟩
  rw [List.foldlM_cons, Lexer.push_space hc, Option.bind_eq_bind, Option.bind_some, hl]

theorem margin (depth : Nat) (h : Spells cs ts) : Spells ((Json.margin depth).toList ++ cs) ts := by
  rw [Json.margin, String.toList_ofList]
  induction 2 * depth with
  | zero => exact h
  | succ n ih => exact ih.space rfl

theorem punctuation (hc : punctuation? c = some t) (h : Spells cs ts) :
    Spells (c :: cs) (t :: ts) := by
  intro past
  obtain ⟨l, hl, hdone⟩ := h (t :: past)
  refine ⟨l, ?_, by simpa using hdone⟩
  rw [List.foldlM_cons, Lexer.push_punctuation hc, Option.bind_eq_bind, Option.bind_some, hl]

/-- A word without a character that ends one. -/
theorem word {w : List Char} {v : Json} (hw : w.any isBreak = false)
    (h : Json.word w = some v) : Spells w [.scalar v] := by
  have hw : ∀ c ∈ w, isBreak c = false := by simpa using hw
  intro past
  cases w with
  | nil => cases h
  | cons c rest =>
    refine ⟨{ tokens := past, mode := .word (c :: rest).reverse }, ?_, ?_⟩
    · obtain ⟨hspace, hquote, hpunctuation⟩ := isBreak_eq_false.1 (hw c List.mem_cons_self)
      have hone : Lexer.push { tokens := past } c
          = some { tokens := past, mode := .word [c] } := by
        simp [Lexer.push, Lexer.outside, hspace, hquote, hpunctuation]
      rw [List.foldlM_cons, hone, Option.bind_eq_bind, Option.bind_some,
        Lexer.push_word fun c' hc' => hw c' (List.mem_cons_of_mem c hc')]
      simp
    · simp only [Lexer.finishWord, List.reverse_reverse, h]
      rfl

end Spells

/-! ## Numbers -/

theorem isBreak_of_isDigit (h : c.isDigit = true) : isBreak c = false := by
  have hne : ∀ d : Char, d.isDigit = false → c ≠ d := by
    rintro d hd rfl
    exact absurd (hd.symm.trans h) (by decide)
  have hpunctuation : punctuation? c = none := by
    unfold punctuation?
    split <;> first | rfl | exact absurd h (by decide)
  simp [isBreak, isSpace, hpunctuation, hne ' ' rfl, hne '\n' rfl, hne '\t' rfl, hne '\r' rfl,
    hne '"' rfl]

theorem isDigit_toDigits (n : Nat) : ∀ c ∈ Nat.toDigits 10 n, c.isDigit = true :=
  fun _ hc => Nat.isDigit_of_mem_toDigits (by decide) (by decide) hc

/-- The digits of a number other than zero do not start with a zero. -/
theorem head?_toDigits {n : Nat} (hn : n ≠ 0) : (Nat.toDigits 10 n).head? ≠ some '0' := by
  induction n using Nat.strongRecOn with
  | _ n ih =>
    rw [Nat.toDigits_eq_if (by decide)]
    split
    · next hlt =>
      have hdigit : ∀ d < 10, d ≠ 0 → d.digitChar ≠ '0' := by decide
      simpa using hdigit n hlt hn
    · next hge =>
      have hrest : (Nat.toDigits 10 (n / 10)).head? ≠ none :=
        mt List.head?_eq_none_iff.1 Nat.toDigits_ne_nil
      rw [List.head?_append, Option.or_of_isSome (Option.isSome_iff_ne_none.2 hrest)]
      exact ih _ (by omega) (by omega)

theorem unsigned?_toDigits (n : Nat) : unsigned? (Nat.toDigits 10 n) = some (nat n) := by
  have hall := isDigit_toDigits n
  have hdigits : digits (Nat.toDigits 10 n) = (Nat.toDigits 10 n, []) := by
    rw [digits, List.span_eq_takeWhile_dropWhile, List.takeWhile_eq_self_iff.2 hall,
      List.dropWhile_eq_nil_iff.2 hall]
  have hzero :
      ((Nat.toDigits 10 n).head? == some '0' && (Nat.toDigits 10 n).length != 1) = false := by
    rcases Nat.eq_zero_or_pos n with rfl | hn
    · rfl
    · simp [head?_toDigits (Nat.ne_of_gt hn)]
  simp [unsigned?, hdigits, hzero, isFractionExponent, isExponent]

theorem word_toDigits (n : Nat) : word (Nat.toDigits 10 n) = some (nat n) := by
  have hother : ∀ {c : Char} {rest : List Char}, c.isDigit = false →
      Nat.toDigits 10 n ≠ c :: rest := by
    intro c rest hc heq
    exact absurd (hc.symm.trans (isDigit_toDigits n c (heq ▸ List.mem_cons_self))) (by decide)
  have hnull : Nat.toDigits 10 n ≠ "null".toList := hother (c := 'n') rfl
  have htrue : Nat.toDigits 10 n ≠ "true".toList := hother (c := 't') rfl
  have hfalse : Nat.toDigits 10 n ≠ "false".toList := hother (c := 'f') rfl
  rw [word.eq_def, if_neg hnull, if_neg htrue, if_neg hfalse]
  split
  · next heq => exact absurd heq (hother rfl)
  · exact unsigned?_toDigits n

theorem Spells.nat (n : Nat) : Spells (toString n).toList [.scalar (.nat n)] := by
  rw [Nat.toString_eq_ofList_toDigits, String.toList_ofList]
  refine word ?_ (word_toDigits n)
  simpa using fun c hc => isBreak_of_isDigit (isDigit_toDigits n c hc)

/-! ## Strings -/

/-- The two digits in the escape of a control character. -/
theorem digits_of_control : ∀ n < 32,
    ((if n < 16 then "0" else "") ++ String.ofList (Nat.toDigits 16 n)).toList.map (Text.digit? 16)
      = [some (n / 16), some (n % 16)] := by
  decide

/-- The text of a character is read as a piece that stands for the character. -/
theorem push_escape (c : Char) (past : List Token) (pieces : List Piece) :
    ∃ p, (escape c).toList.foldlM Lexer.push { tokens := past, mode := .string pieces }
        = some { tokens := past, mode := .string (p :: pieces) } ∧
      ∀ rest, Piece.texts (p :: rest) = (Piece.texts rest).map (c :: ·) := by
  unfold escape
  split
  case h_8 _ hquote hbackslash _ _ _ _ _ =>
    split
    · next hcontrol =>
      have hlt : c.toNat < 32 := hcontrol
      obtain ⟨a, _, htext, ha, hrest⟩ := List.map_eq_cons_iff.1 (digits_of_control c.toNat hlt)
      obtain ⟨b, _, rfl, hb, hnil⟩ := List.map_eq_cons_iff.1 hrest
      obtain rfl := List.map_eq_nil_iff.1 hnil
      have hvalue : c.toNat / 16 * 16 + c.toNat % 16 = c.toNat := Nat.div_add_mod' ..
      have hzero : Text.digit? 16 '0' = some 0 := rfl
      refine ⟨.unit c.toNat, ?_, fun rest => ?_⟩
      · rw [String.append_assoc, String.toList_append, htext]
        show [ '\\', 'u', '0', '0', a, b].foldlM Lexer.push _ = _
        simp [Lexer.push, hzero, ha, hb, hvalue]
      · have hlow : c.toNat < 0xd800 := by omega
        rw [Piece.texts.eq_def]
        simp only [hlow, true_or, if_pos, Char.ofNat_toNat]
    · next hplain =>
      refine ⟨.char c, ?_, fun rest => rfl⟩
      have hother : c ≠ '"' ∧ c ≠ '\\' := ⟨hquote, hbackslash⟩
      simp [Lexer.push, hother, hplain]
  all_goals exact ⟨.char _, rfl, fun rest => rfl⟩

/-- The text of a string is read as pieces that stand for the string. -/
theorem push_escapes (s : List Char) (past : List Token) (pieces : List Piece) :
    ∃ ps, (s.flatMap fun c => (escape c).toList).foldlM Lexer.push
          { tokens := past, mode := .string pieces }
        = some { tokens := past, mode := .string (ps.reverse ++ pieces) } ∧
      Piece.texts ps = some s := by
  induction s generalizing pieces with
  | nil => exact ⟨[], rfl, rfl⟩
  | cons c rest ih =>
    obtain ⟨p, hp, htexts⟩ := push_escape c past pieces
    obtain ⟨ps, hps, hrest⟩ := ih (p :: pieces)
    refine ⟨p :: ps, ?_, by rw [htexts, hrest]; rfl⟩
    rw [List.flatMap_cons, List.foldlM_append, hp, Option.bind_eq_bind, Option.bind_some, hps]
    simp

theorem Spells.string (s : String) (h : Spells cs ts) :
    Spells ((quoted s).toList ++ cs) (.string (some s) :: ts) := by
  intro past
  obtain ⟨ps, hps, htexts⟩ := push_escapes s.toList past []
  obtain ⟨l, hl, hdone⟩ := h (.string (some s) :: past)
  refine ⟨l, ?_, by simpa using hdone⟩
  have htext : (quoted s).toList ++ cs
      = '"' :: (s.toList.flatMap fun c => (escape c).toList) ++ '"' :: cs := by
    simp [quoted, String.toList_join, List.flatMap_map]
  have hopen : Lexer.push { tokens := past } '"'
      = some { tokens := past, mode := .string [] } := rfl
  have hclose : Lexer.push { tokens := past, mode := .string (ps.reverse ++ []) } '"'
      = some { tokens := .string (some s) :: past } := by
    simp [Lexer.push, htexts]
  rw [htext, List.cons_append, List.foldlM_cons, hopen, Option.bind_eq_bind, Option.bind_some,
    List.foldlM_append, hps, Option.bind_eq_bind, Option.bind_some, List.foldlM_cons, hclose,
    Option.bind_eq_bind, Option.bind_some, hl]

end CacheCoherence.Json
