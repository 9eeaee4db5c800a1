import CacheCoherence.Fault
import CacheCoherence.Proofs.Text.Numerals
import CacheCoherence.Proofs.Text.Pieces
import CacheCoherence.Trace
import Mathlib.Data.List.ReduceOption

/-!
# Grammar — the texts that are traces

A line of a trace is put together here from its fields: what its core, its access and its address
may look like, and which access they make. The lines that are read are exactly these, with the
values that they spell out; of a text with a wrong line the first one is named.
-/

namespace CacheCoherence.Trace

open Text (Spaced Numeral Lined)

variable {cs line : List Char} {ls : List (List Char)} {n m : Nat}

/-! ## Fields -/

/-- The field names the kind of access by its first letter. -/
inductive AccessField : List Char → Access → Prop
  | read (c : Char) (h : c = 'R' ∨ c = 'r') : AccessField [c] .read
  | write (c : Char) (h : c = 'W' ∨ c = 'w') : AccessField [c] .write

/-- The field spells an address in hexadecimal digits behind a mark, or in decimal digits. -/
inductive AddressField : List Char → Nat → Prop
  | hexadecimal {digits : List Char} {n : Nat} (x : Char) (hx : x = 'x' ∨ x = 'X')
      (h : Numeral 16 digits n) : AddressField ('0' :: x :: digits) n
  | decimal {digits : List Char} {n : Nat} (h : Numeral 10 digits n) : AddressField digits n

theorem access?_eq_some {a : Access} : access? cs = some a ↔ AccessField cs a := by
  constructor
  · intro h
    unfold access? at h
    split at h
    all_goals cases h
    · exact .read 'R' (.inl rfl)
    · exact .read 'r' (.inr rfl)
    · exact .write 'W' (.inl rfl)
    · exact .write 'w' (.inr rfl)
  · rintro (⟨c, rfl | rfl⟩ | ⟨c, rfl | rfl⟩) <;> rfl

theorem readAccess_eq_ok {a : Access} : readAccess cs = .ok a ↔ AccessField cs a := by
  rw [← access?_eq_some, readAccess]
  cases access? cs <;> simp

/-- A numeral below the bound is the word that it stands for. -/
theorem exists_readNat_eq_ok {radix : Nat} (hpos : 0 < radix) (hradix : radix ≤ 16) {w : UInt64} :
    (∃ n, Text.readNat radix UInt64.size cs = .ok n ∧ UInt64.ofNat n = w) ↔
      Numeral radix cs w.toNat := by
  simp only [Text.readNat_eq_ok hpos hradix]
  constructor
  · rintro ⟨n, ⟨hn, hlt⟩, rfl⟩
    rwa [UInt64.toNat_ofNat_of_lt' hlt]
  · intro h
    exact ⟨w.toNat, ⟨h, w.toNat_lt_size⟩, UInt64.ofNat_toNat⟩

theorem readCore_eq_ok {core : UInt64} : readCore cs = .ok core ↔ Numeral 10 cs core.toNat := by
  rw [← exists_readNat_eq_ok (by decide) (by decide), readCore]
  cases Text.readNat 10 UInt64.size cs <;> simp

/-- No decimal numeral begins like a hexadecimal address. -/
theorem not_numeral_marked {x : Char} (hx : x = 'x' ∨ x = 'X') :
    ¬ Numeral 10 ('0' :: x :: cs) n := by
  intro h
  have hread := (Text.readNat_eq_ok (by decide) (by decide)).2 ⟨h, Nat.lt_succ_self n⟩
  have hdigit : Text.digit? 10 '0' = some 0 ∧ Text.digit? 10 x = none := by
    rcases hx with rfl | rfl <;> decide
  simp [Text.readNat, Text.readDigits, hdigit] at hread

theorem addressField_iff :
    AddressField cs n ↔ Numeral (addressNumeral cs).1 (addressNumeral cs).2 n := by
  constructor
  · rintro (⟨x, rfl | rfl, h⟩ | h)
    · exact h
    · exact h
    · unfold addressNumeral
      split
      · exact absurd h (not_numeral_marked (.inl rfl))
      · exact absurd h (not_numeral_marked (.inr rfl))
      · exact h
  · unfold addressNumeral
    split
    · exact .hexadecimal 'x' (.inl rfl)
    · exact .hexadecimal 'X' (.inr rfl)
    · exact .decimal

theorem readAddress_eq_ok {addr : Addr} : readAddress cs = .ok addr ↔ AddressField cs addr.toNat := by
  have hradix : 0 < (addressNumeral cs).1 ∧ (addressNumeral cs).1 ≤ 16 := by
    unfold addressNumeral
    split <;> simp
  rw [addressField_iff, ← exists_readNat_eq_ok hradix.1 hradix.2, readAddress]
  dsimp only
  split
  · next h => simp [h]
  · next h => simp [h]

/-! ## Lines -/

/-- The line holds this access, or none: up to its comment it is blank, or made of the core, the
access and the address. -/
inductive Line (line : List Char) : Option TraceEntry → Prop
  | blank (h : Spaced (line.takeWhile (· ≠ '#')) []) : Line line none
  | entry {core access addr : List Char} {e : TraceEntry}
      (h : Spaced (line.takeWhile (· ≠ '#')) [core, access, addr])
      (hcore : Numeral 10 core e.core.toNat) (haccess : AccessField access e.access)
      (haddr : AddressField addr e.addr.toNat) : Line line (some e)

theorem fields_content {ws : List (List Char)} :
    Text.fields (content line) = ws ↔ Spaced (line.takeWhile (· ≠ '#')) ws := by
  rw [content, Text.fields_trim, Text.fields_eq_iff]

theorem readLine_eq_ok {e : Option TraceEntry} : readLine line = .ok e ↔ Line line e := by
  constructor
  · intro h
    unfold readLine at h
    split at h
    · next hfields =>
      cases h
      exact .blank (fields_content.1 hfields)
    · next core access addr hfields =>
      obtain ⟨c, hcore, h⟩ := bind_eq_ok.1 h
      obtain ⟨a, haccess, h⟩ := bind_eq_ok.1 h
      obtain ⟨w, haddr, h⟩ := bind_eq_ok.1 h
      cases h
      exact .entry (fields_content.1 hfields) (readCore_eq_ok.1 hcore) (readAccess_eq_ok.1 haccess)
        (readAddress_eq_ok.1 haddr)
    · cases h
  · intro h
    cases h with
    | blank h => simp only [readLine, fields_content.2 h]
    | entry h hcore haccess haddr =>
      simp only [readLine, fields_content.2 h, readCore_eq_ok.2 hcore, readAccess_eq_ok.2 haccess,
        readAddress_eq_ok.2 haddr]
      rfl

theorem exists_readLine_eq_error :
    (∃ p, readLine line = .error p) ↔ ¬ ∃ e, Line line e := by
  simp only [← readLine_eq_ok]
  cases readLine line <;> simp

/-! ## Texts -/

theorem exists_forall₂_line : (∃ found, List.Forall₂ Line ls found) ↔ ∀ l ∈ ls, ∃ e, Line l e := by
  induction ls with
  | nil => simp
  | cons line rest ih =>
    rw [List.forall_mem_cons, ← ih]
    constructor
    · rintro ⟨_ | ⟨e, found⟩, ⟨⟩⟩
      next he hfound => exact ⟨⟨e, he⟩, found, hfound⟩
    · rintro ⟨⟨e, he⟩, found, hfound⟩
      exact ⟨e :: found, .cons he hfound⟩

theorem readLines_cons_eq_ok {es : List TraceEntry} :
    readLines n (line :: ls) = .ok es ↔
      ∃ e rest, readLine line = .ok e ∧ readLines (n + 1) ls = .ok rest ∧ es = e.toList ++ rest := by
  rw [readLines]
  cases readLine line with
  | error p => simp [Except.mapError, bind, Except.bind]
  | ok e =>
    cases readLines (n + 1) ls <;>
      simp [Except.mapError, bind, Except.bind, pure, Except.pure, eq_comm]

theorem readLines_cons_eq_error {err : TraceError} :
    readLines n (line :: ls) = .error err ↔
      (∃ p, readLine line = .error p ∧ err = { line := n, problem := p }) ∨
        ((∃ e, readLine line = .ok e) ∧ readLines (n + 1) ls = .error err) := by
  rw [readLines]
  cases readLine line with
  | error p => simp [Except.mapError, bind, Except.bind, eq_comm]
  | ok e =>
    cases readLines (n + 1) ls <;> simp [Except.mapError, bind, Except.bind, pure, Except.pure]

/-- Lines are read just if each of them is well formed, as the accesses that they hold. -/
theorem readLines_eq_ok {es : List TraceEntry} :
    readLines n ls = .ok es ↔ ∃ found, List.Forall₂ Line ls found ∧ es = found.reduceOption := by
  induction ls generalizing n es with
  | nil => simp [readLines, eq_comm, List.reduceOption_nil]
  | cons line rest ih =>
    rw [readLines_cons_eq_ok]
    constructor
    · rintro ⟨e, es, he, hes, rfl⟩
      obtain ⟨found, hfound, rfl⟩ := ih.1 hes
      exact ⟨e :: found, .cons (readLine_eq_ok.1 he) hfound, by cases e <;> rfl⟩
    · rintro ⟨found, hfound, rfl⟩
      obtain ⟨e, more, he, hmore, rfl⟩ := List.forall₂_cons_left_iff.1 hfound
      exact ⟨e, more.reduceOption, readLine_eq_ok.2 he, ih.2 ⟨more, hmore, rfl⟩,
        by cases e <;> rfl⟩

/-- The line that is named is the first one that is not well formed. -/
theorem readLines_eq_error {p : TraceProblem} :
    readLines n ls = .error { line := m, problem := p } ↔
      ∃ before line after, ls = before ++ line :: after ∧ (∀ l ∈ before, ∃ e, Line l e) ∧
        readLine line = .error p ∧ m = n + before.length := by
  induction ls generalizing n with
  | nil => simp [readLines]
  | cons first rest ih =>
    rw [readLines_cons_eq_error, ih]
    constructor
    · rintro (⟨p', hp, heq⟩ | ⟨⟨e, he⟩, before, line, after, rfl, hbefore, hline, rfl⟩)
      · cases heq
        exact ⟨[], first, rest, rfl, by simp, hp, rfl⟩
      · refine ⟨first :: before, line, after, rfl, ?_, hline, ?_⟩
        · simpa using ⟨⟨e, readLine_eq_ok.1 he⟩, hbefore⟩
        · rw [List.length_cons]
          omega
    · rintro ⟨before, line, after, hsplit, hbefore, hline, rfl⟩
      cases before with
      | nil =>
        cases hsplit
        exact .inl ⟨p, hline, rfl⟩
      | cons l before =>
        cases hsplit
        obtain ⟨⟨e, he⟩, hbefore⟩ := List.forall_mem_cons.1 hbefore
        right
        refine ⟨⟨e, readLine_eq_ok.2 he⟩, before, line, after, rfl, hbefore, hline, ?_⟩
        rw [List.length_cons]
        omega

variable {text : String} {t : Trace}

theorem parse_eq_ok :
    parse text = .ok t ↔
      ∃ found, List.Forall₂ Line (Text.lines text.toList) found ∧ t.entries = found.reduceOption := by
  rw [← readLines_eq_ok (n := 1), parse, bind_eq_ok]
  constructor
  · rintro ⟨entries, hread, ⟨⟩⟩
    exact hread
  · intro hread
    exact ⟨t.entries, hread, rfl⟩

theorem exists_parse_eq_ok :
    (∃ t, parse text = .ok t) ↔ ∀ l ∈ Text.lines text.toList, ∃ e, Line l e := by
  rw [← exists_forall₂_line]
  constructor
  · rintro ⟨t, ht⟩
    obtain ⟨found, hfound, -⟩ := parse_eq_ok.1 ht
    exact ⟨found, hfound⟩
  · rintro ⟨found, hfound⟩
    exact ⟨⟨found.reduceOption⟩, parse_eq_ok.2 ⟨found, hfound, rfl⟩⟩

theorem parse_eq_error {err : TraceError} :
    parse text = .error err ↔ readLines 1 (Text.lines text.toList) = .error err := by
  rw [parse]
  cases readLines 1 (Text.lines text.toList) <;> simp [bind, Except.bind, pure, Except.pure]

theorem exists_parse_eq_error :
    (∃ p, parse text = .error { line := n, problem := p }) ↔
      ∃ before line after, Text.lines text.toList = before ++ line :: after ∧
        (∀ l ∈ before, ∃ e, Line l e) ∧ (¬ ∃ e, Line line e) ∧ n = before.length + 1 := by
  simp only [parse_eq_error, readLines_eq_error, ← exists_readLine_eq_error]
  constructor
  · rintro ⟨p, before, line, after, hsplit, hbefore, hline, rfl⟩
    exact ⟨before, line, after, hsplit, hbefore, ⟨p, hline⟩, Nat.add_comm 1 _⟩
  · rintro ⟨before, line, after, hsplit, hbefore, ⟨p, hline⟩, rfl⟩
    exact ⟨p, before, line, after, hsplit, hbefore, hline, Nat.add_comm _ 1⟩

/-- A text is made of lines in one way, and it is a trace just if each of them is well formed. What is
read then are the accesses of the lines, in their order; otherwise the error has the number of the
first line that is not well formed, counted from one. -/
theorem parse_grammatical (text : String) :
    ∃ ls, (∀ ls', Lined text.toList ls' ↔ ls' = ls) ∧
      ((∃ t, parse text = .ok t) ↔ ∀ l ∈ ls, ∃ e, Line l e) ∧
      (∀ t, parse text = .ok t ↔
        ∃ found, List.Forall₂ Line ls found ∧ t.entries = found.reduceOption) ∧
      ∀ n, (∃ p, parse text = .error { line := n, problem := p }) ↔
        ∃ before line after, ls = before ++ line :: after ∧ (∀ l ∈ before, ∃ e, Line l e) ∧
          (¬ ∃ e, Line line e) ∧ n = before.length + 1 := by
  refine ⟨Text.lines text.toList, ?_, exists_parse_eq_ok, fun _ => parse_eq_ok,
    fun _ => exists_parse_eq_error⟩
  intro ls'
  rw [← Text.lines_eq_iff, eq_comm]

-- Blanks of any kind part the fields, a comment may touch the last one, and the line that overflows is
-- the third.
example :
    (parse " 0 R 0x10# load\r\n\n1\u3000w +16").map (·.entries) =
        .ok [⟨0, .read, 16⟩, ⟨1, .write, 16⟩] ∧
      (parse "# no access\n\n0 R 0x10000000000000000\nx").mapError (·.line) = .error 3 := by
  decide +kernel

end CacheCoherence.Trace
