import CacheCoherence.Text.Blank
import Mathlib.Data.List.TakeDrop
import Mathlib.Data.List.TakeWhile

/-!
# Pieces — the fields and the lines of a text

What a text is cut into is said here the other way round: how words and blanks, or lines and their
ends, are put together to the text. Both ways agree for every text, so there is exactly one way to
take a text apart.
-/

namespace CacheCoherence.Text

variable {c : Char} {cs rest w : List Char} {ws ls : List (List Char)}

/-! ## Fields -/

/-- Every character is blank. -/
def IsBlanks (cs : List Char) : Prop := ∀ c ∈ cs, isBlank c = true

/-- At least one character, and none of them is blank. -/
def IsWord (cs : List Char) : Prop := cs ≠ [] ∧ ∀ c ∈ cs, isBlank c = false

/-- The text is made of the words, in this order, each set off from the next by blanks; there may be
more blanks at its ends. -/
inductive Spaced : List Char → List (List Char) → Prop
  | blanks {cs : List Char} (h : IsBlanks cs) : Spaced cs []
  | word {before w rest : List Char} {ws : List (List Char)} (hbefore : IsBlanks before)
      (hw : IsWord w) (hrest : ∀ c ∈ rest.head?, isBlank c = true) (h : Spaced rest ws) :
      Spaced (before ++ w ++ rest) (w :: ws)

theorem fields_of_nil (h : cs.dropWhile isBlank = []) : fields cs = [] := by
  rw [fields]
  split
  · rfl
  · next heq =>
    rw [h] at heq
    cases heq

theorem fields_of_cons (h : cs.dropWhile isBlank = c :: rest) :
    fields cs = (c :: rest.takeWhile fun d => !isBlank d) ::
      fields (rest.dropWhile fun d => !isBlank d) := by
  rw [fields]
  split
  · next heq =>
    rw [h] at heq
    cases heq
  · next heq =>
    rw [h] at heq
    cases heq
    rfl

/-- Behind blanks, a word is the first field if it ends there or a blank follows. -/
theorem fields_word {before : List Char} (hbefore : IsBlanks before) (hw : IsWord w)
    (hrest : ∀ c ∈ rest.head?, isBlank c = true) :
    fields (before ++ w ++ rest) = w :: fields rest := by
  obtain ⟨c, w', rfl⟩ := List.exists_cons_of_ne_nil hw.1
  obtain ⟨hc, hw'⟩ := List.forall_mem_cons.1 hw.2
  have hdrop : (before ++ (c :: w') ++ rest).dropWhile isBlank = c :: (w' ++ rest) := by
    rw [List.append_assoc, List.dropWhile_append_of_pos hbefore, List.cons_append,
      List.dropWhile_cons_of_neg (by simp [hc])]
  have hword : ∀ d ∈ w', (!isBlank d) = true := by
    intro d hd
    simp [hw' d hd]
  have hend : rest.takeWhile (fun d => !isBlank d) = [] ∧
      rest.dropWhile (fun d => !isBlank d) = rest := by
    cases rest with
    | nil => exact ⟨rfl, rfl⟩
    | cons d rest' => simp [hrest d rfl]
  rw [fields_of_cons hdrop, List.takeWhile_append_of_pos hword, List.dropWhile_append_of_pos hword,
    hend.1, hend.2, List.append_nil]

/-- What is left of a text begins with the character that stopped the search. -/
theorem head_dropWhile {p : Char → Bool} (h : c ∈ (cs.dropWhile p).head?) : p c = false := by
  have hstop := List.head?_dropWhile_not p cs
  rw [Option.mem_def.1 h] at hstop
  exact hstop

theorem spaced_fields (cs : List Char) : Spaced cs (fields cs) := by
  fun_induction fields cs with
  | case1 cs h =>
    apply Spaced.blanks
    intro c hc
    simpa using List.dropWhile_eq_nil_iff.1 h c hc
  | case2 cs c rest h hlt ih =>
    have hc : isBlank c = false := head_dropWhile (by rw [h]; rfl)
    have hsplit : cs = cs.takeWhile isBlank ++ (c :: rest.takeWhile fun d => !isBlank d) ++
        rest.dropWhile fun d => !isBlank d := by
      rw [List.append_assoc, List.cons_append, List.takeWhile_append_dropWhile, ← h,
        List.takeWhile_append_dropWhile]
    rw [hsplit]
    refine .word (fun d hd => List.mem_takeWhile_imp hd) ⟨List.cons_ne_nil c _, ?_⟩ ?_ ih
    · intro d hd
      rcases List.mem_cons.1 hd with rfl | hd
      · exact hc
      · simpa using List.mem_takeWhile_imp hd
    · intro d hd
      simpa using head_dropWhile hd

/-- The fields of a text are the words that it is made of. -/
theorem fields_eq_iff : fields cs = ws ↔ Spaced cs ws := by
  constructor
  · rintro rfl
    exact spaced_fields cs
  · intro h
    induction h with
    | blanks h => exact fields_of_nil (List.dropWhile_eq_nil_iff.2 h)
    | word hbefore hw hrest _ ih => rw [fields_word hbefore hw hrest, ih]

/-! ## Trimming -/

theorem IsBlanks.append {cs' : List Char} (h : IsBlanks cs) (h' : IsBlanks cs') :
    IsBlanks (cs ++ cs') :=
  List.forall_mem_append.2 ⟨h, h'⟩

theorem Spaced.before {before : List Char} (hbefore : IsBlanks before) (h : Spaced cs ws) :
    Spaced (before ++ cs) ws := by
  cases h with
  | blanks h => exact .blanks (hbefore.append h)
  | word hblank hw hrest h =>
    rw [← List.append_assoc, ← List.append_assoc]
    exact .word (hbefore.append hblank) hw hrest h

theorem Spaced.behind {after : List Char} (hafter : IsBlanks after) (h : Spaced cs ws) :
    Spaced (cs ++ after) ws := by
  induction h with
  | blanks h => exact .blanks (h.append hafter)
  | @word before w rest ws hbefore hw hrest h ih =>
    rw [List.append_assoc]
    refine .word hbefore hw ?_ ih
    intro c hc
    cases rest with
    | nil =>
      rw [List.nil_append] at hc
      exact hafter c (List.mem_of_mem_head? hc)
    | cons d rest' => exact hrest c hc

/-- A text is what is left of it after trimming, with blanks around. -/
theorem exists_trim (cs : List Char) :
    ∃ before after, IsBlanks before ∧ IsBlanks after ∧ cs = before ++ trim cs ++ after := by
  refine ⟨cs.takeWhile isBlank, ((cs.dropWhile isBlank).reverse.takeWhile isBlank).reverse,
    fun d hd => List.mem_takeWhile_imp hd, ?_, ?_⟩
  · intro d hd
    exact List.mem_takeWhile_imp (List.mem_reverse.1 hd)
  · rw [trim, List.append_assoc, ← List.reverse_append, List.takeWhile_append_dropWhile,
      List.reverse_reverse, List.takeWhile_append_dropWhile]

/-- Trimming changes no field. -/
theorem fields_trim (cs : List Char) : fields (trim cs) = fields cs := by
  obtain ⟨before, after, hbefore, hafter, hcs⟩ := exists_trim cs
  have hspaced := ((spaced_fields (trim cs)).before hbefore).behind hafter
  rw [← hcs] at hspaced
  exact (fields_eq_iff.2 hspaced).symm

/-! ## Lines -/

/-- The text is made of the lines, in this order: behind every line there is a line feed, or a
carriage return and a line feed, and only behind the last line there may be neither, if the line is
not empty. -/
inductive Lined : List Char → List (List Char) → Prop
  | nil : Lined [] []
  | last {line : List Char} (hne : line ≠ []) (hline : '\n' ∉ line) : Lined line [line]
  | feed {line rest : List Char} {ls : List (List Char)} (hline : '\n' ∉ line)
      (hreturn : line.getLast? ≠ some '\r') (h : Lined rest ls) :
      Lined (line ++ '\n' :: rest) (line :: ls)
  | returnFeed {line rest : List Char} {ls : List (List Char)} (hline : '\n' ∉ line)
      (h : Lined rest ls) : Lined (line ++ '\r' :: '\n' :: rest) (line :: ls)

theorem lines_single (hc : c ≠ '\n') : lines [c] = [[c]] := by
  rw [lines, lines] <;> simp_all

theorem lines_cons_of_lines {line : List Char} {more : List (List Char)} (hc : c ≠ '\n')
    (hend : c = '\r' → rest.head? ≠ some '\n') (h : lines rest = line :: more) :
    lines (c :: rest) = (c :: line) :: more := by
  have hreturn : ∀ rest', c = '\r' → rest = '\n' :: rest' → False := by
    rintro rest' hc rfl
    exact hend hc rfl
  rw [lines, h]
  · exact hc
  · exact hreturn

/-- What stands in front of a text and does not end a line belongs to the first line. -/
theorem lines_append {line piece tail : List Char} {more : List (List Char)} (hline : '\n' ∉ line)
    (hend : line.getLast? = some '\r' → tail.head? ≠ some '\n') (h : lines tail = piece :: more) :
    lines (line ++ tail) = (line ++ piece) :: more := by
  induction line with
  | nil => exact h
  | cons c line ih =>
    rw [List.mem_cons, not_or] at hline
    obtain ⟨hc, hline⟩ := hline
    cases line with
    | nil =>
      apply lines_cons_of_lines (Ne.symm hc) _ h
      intro hc
      exact hend (by rw [hc]; rfl)
    | cons d line =>
      apply lines_cons_of_lines (Ne.symm hc)
      · intro _ hd
        exact hline (by simp [Option.some.inj hd])
      · apply ih hline
        simpa using hend

theorem lined_lines (cs : List Char) : Lined cs (lines cs) := by
  fun_induction lines cs with
  | case1 => exact .nil
  | case2 rest ih => exact @Lined.feed [] rest _ List.not_mem_nil nofun ih
  | case3 rest ih => exact @Lined.returnFeed [] rest _ List.not_mem_nil ih
  | case4 c rest hc hreturn h ih =>
    rw [h] at ih
    cases ih
    exact .last (List.cons_ne_nil c []) (by simpa using Ne.symm hc)
  | case5 c rest hc hreturn line more h ih =>
    rw [h] at ih
    cases ih with
    | last hne hline => exact .last (List.cons_ne_nil c rest) (by simp [Ne.symm hc, hline])
    | @feed _ rest _ hline hend ih =>
      apply @Lined.feed (c :: line) rest more (by simp [Ne.symm hc, hline]) _ ih
      cases line with
      | nil =>
        intro h
        exact hreturn rest (by simpa using h) rfl
      | cons d line => simpa using hend
    | @returnFeed _ rest _ hline ih =>
      exact @Lined.returnFeed (c :: line) rest more (by simp [Ne.symm hc, hline]) ih

/-- The lines of a text are the lines that it is made of. -/
theorem lines_eq_iff : lines cs = ls ↔ Lined cs ls := by
  constructor
  · rintro rfl
    exact lined_lines cs
  · intro h
    induction h with
    | nil => rfl
    | @last line hne hline =>
      obtain ⟨init, c, rfl⟩ := (List.eq_nil_or_concat line).resolve_left hne
      rw [List.concat_eq_append] at hline ⊢
      simp only [List.mem_append, List.mem_singleton, not_or] at hline
      have hc : c ≠ '\n' := Ne.symm hline.2
      have hend : [c].head? ≠ some '\n' := by simpa using hc
      exact lines_append hline.1 (fun _ => hend) (lines_single hc)
    | @feed line rest ls hline hreturn _ ih =>
      have htail : lines ('\n' :: rest) = [] :: ls := by rw [lines, ih]
      rw [lines_append hline (fun h => absurd h hreturn) htail, List.append_nil]
    | @returnFeed line rest ls hline _ ih =>
      have htail : lines ('\r' :: '\n' :: rest) = [] :: ls := by rw [lines, ih]
      rw [lines_append hline (fun _ => by simp) htail, List.append_nil]

end CacheCoherence.Text
