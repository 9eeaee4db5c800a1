import CacheCoherence.Proofs.Json.Spelled

/-!
# Written — reading what was written

A value that is built of texts, numbers written as plain digits, truth values and `null` is written
so that it is read again, however deep it is nested. The proof goes along the value: the text of
every part is cut into tokens of its own, and these deliver the part to whatever is open around it.
-/

namespace CacheCoherence.Json

/-- A value that a text can denote: every number has a value, and every string a text. -/
inductive Written : Json → Prop
  | null : Written null
  | bool (b : Bool) : Written (bool b)
  | nat (n : Nat) : Written (nat n)
  | text (s : String) : Written (text s)
  | array {items : List Json} (h : ∀ v ∈ items, Written v) : Written (array items)
  | object {members : List (String × Json)} (h : ∀ m ∈ members, Written m.2) :
      Written (ofMembers members)

/-- The characters are those of the value `v`: their tokens deliver it to what is open around. -/
def Denotes (cs : List Char) (v : Json) : Prop :=
  ∃ ts, Spells cs ts ∧
    ∀ frames, ts.foldlM Progress.push (.value frames) = some (.deliver v frames)

/-- A text that denotes a value is read as that value. -/
theorem Denotes.parse?_eq {s : String} {v : Json} (h : Denotes s.toList v) : parse? s = some v := by
  obtain ⟨ts, hspells, hread⟩ := h
  simp [parse?, hspells.tokens_eq, hread, Progress.deliver]

/-- A word is a value. -/
theorem Spells.denotes {cs : List Char} {v : Json} (h : Spells cs [.scalar v]) : Denotes cs v :=
  ⟨_, h, fun _ => rfl⟩

namespace Progress

/-- Where an array begins, tokens that give an item do so as behind a comma. -/
theorem foldlM_firstItem {ts : List Token} {frames frames' : List Frame} {items : List Json}
    (h : ts.foldlM push (.value (.array [] :: frames)) = some (.afterItem items frames')) :
    ts.foldlM push (.firstItem frames) = some (.afterItem items frames') := by
  cases ts with
  | nil => cases h
  | cons t rest =>
    rw [List.foldlM_cons] at h ⊢
    cases t with
    | closeArray => cases h
    | _ => exact h

end Progress

variable {depth : Nat}

/-- The items of an array. -/
theorem denotes_items {v : Json} {rest : List Json}
    (h : ∀ w ∈ v :: rest, Denotes (pretty depth w).toList w) :
    ∃ ts, Spells (prettyItems depth (v :: rest)).toList ts ∧ ∀ items frames,
      ts.foldlM Progress.push (.value (.array items :: frames))
        = some (.afterItem ((v :: rest).reverse ++ items) frames) := by
  induction rest generalizing v with
  | nil =>
    obtain ⟨ts, hspells, hread⟩ := h v List.mem_cons_self
    refine ⟨ts, ?_, fun items frames => hread _⟩
    rw [prettyItems, String.toList_append]
    exact hspells.margin depth
  | cons w rest ih =>
    obtain ⟨ts, hspells, hread⟩ := h v List.mem_cons_self
    obtain ⟨ts', hspells', hread'⟩ := ih fun w' hw' => h w' (List.mem_cons_of_mem v hw')
    refine ⟨ts ++ .comma :: ts', ?_, fun items frames => ?_⟩
    · have htext : (prettyItems depth (v :: w :: rest)).toList = (margin depth).toList
          ++ ((pretty depth v).toList
            ++ ',' :: '\n' :: (prettyItems depth (w :: rest)).toList) := by
        rw [prettyItems]
        · simp
        · nofun
      rw [htext]
      exact (hspells.append rfl ((hspells'.space rfl).punctuation rfl)).margin depth
    · rw [List.foldlM_append, hread, Option.bind_eq_bind, Option.bind_some, List.foldlM_cons]
      show ts'.foldlM Progress.push (.value (.array (v :: items) :: frames)) = _
      rw [hread']
      simp

/-- The members of an object. -/
theorem denotes_members {m : String × Json} {rest : List (String × Json)}
    (h : ∀ m' ∈ m :: rest, Denotes (pretty depth m'.2).toList m'.2) :
    ∃ ts, Spells (prettyMembers depth ((m :: rest).map fun m => (some m.1, m.2))).toList
        (.string (some m.1) :: ts) ∧
      ∀ members frames, ts.foldlM Progress.push (.afterName members (some m.1) frames)
        = some (.afterMember (((m :: rest).map fun m => (some m.1, m.2)).reverse ++ members)
            frames) := by
  obtain ⟨name, v⟩ := m
  induction rest generalizing name v with
  | nil =>
    obtain ⟨ts, hspells, hread⟩ := h (name, v) List.mem_cons_self
    refine ⟨.colon :: ts, ?_, fun members frames => hread _⟩
    have htext : (prettyMembers depth [(some name, v)]).toList = (margin depth).toList
        ++ ((quoted name).toList ++ ':' :: ' ' :: (pretty depth v).toList) := by
      simp [prettyMembers]
    rw [List.map_singleton, htext]
    exact (((hspells.space rfl).punctuation rfl).string name).margin depth
  | cons m rest ih =>
    obtain ⟨name', v'⟩ := m
    obtain ⟨ts, hspells, hread⟩ := h (name, v) List.mem_cons_self
    obtain ⟨ts', hspells', hread'⟩ := ih name' v' fun m' hm' => h m' (List.mem_cons_of_mem _ hm')
    refine ⟨.colon :: (ts ++ .comma :: .string (some name') :: ts'), ?_, fun members frames => ?_⟩
    · have htext : (prettyMembers depth (((name, v) :: (name', v') :: rest).map
            fun m => (some m.1, m.2))).toList = (margin depth).toList
          ++ ((quoted name).toList ++ ':' :: ' ' :: ((pretty depth v).toList
            ++ ',' :: '\n' :: (prettyMembers depth (((name', v') :: rest).map
              fun m => (some m.1, m.2))).toList)) := by
        rw [List.map_cons, prettyMembers]
        · simp
        · nofun
      rw [htext]
      have hcomma := (hspells'.space (c := '\n') rfl).punctuation (c := ',') rfl
      have hrest := hspells.append rfl hcomma
      exact (((hrest.space rfl).punctuation rfl).string name).margin depth
    · show (ts ++ .comma :: .string (some name') :: ts').foldlM Progress.push
        (.value (.object members (some name) :: frames)) = _
      rw [List.foldlM_append, hread, Option.bind_eq_bind, Option.bind_some]
      show ts'.foldlM Progress.push
        (.afterName ((some name, v) :: members) (some name') frames) = _
      rw [hread']
      simp

theorem denotes_array {items : List Json}
    (h : ∀ v ∈ items, Denotes (pretty (depth + 1) v).toList v) :
    Denotes (pretty depth (array items)).toList (array items) := by
  cases items with
  | nil =>
    rw [pretty]
    have hclose := Spells.nil.punctuation (c := ']') rfl
    exact ⟨_, hclose.punctuation (c := '[') rfl, fun _ => rfl⟩
  | cons v rest =>
    obtain ⟨ts, hspells, hread⟩ := denotes_items h
    refine ⟨.openArray :: (ts ++ [.closeArray]), ?_, fun frames => ?_⟩
    · have htext : (pretty depth (array (v :: rest))).toList
          = '[' :: '\n' :: ((prettyItems (depth + 1) (v :: rest)).toList
            ++ '\n' :: ((margin depth).toList ++ [']'])) := by
        rw [pretty]
        · simp
        · nofun
      rw [htext]
      have hclose := ((Spells.nil.punctuation (c := ']') rfl).margin depth).space (c := '\n') rfl
      exact ((hspells.append rfl hclose).space rfl).punctuation rfl
    · show List.foldlM Progress.push (.firstItem frames) (ts ++ [Token.closeArray]) = _
      rw [List.foldlM_append, Progress.foldlM_firstItem (hread [] frames)]
      simp [Progress.push]

theorem denotes_object {members : List (String × Json)}
    (h : ∀ m ∈ members, Denotes (pretty (depth + 1) m.2).toList m.2) :
    Denotes (pretty depth (ofMembers members)).toList (ofMembers members) := by
  cases members with
  | nil =>
    rw [ofMembers, List.map_nil, pretty]
    have hclose := Spells.nil.punctuation (c := '\x7d') rfl
    exact ⟨_, hclose.punctuation (c := '\x7b') rfl, fun _ => rfl⟩
  | cons m rest =>
    obtain ⟨ts, hspells, hread⟩ := denotes_members h
    refine ⟨.openObject :: .string (some m.1) :: (ts ++ [.closeObject]), ?_, fun frames => ?_⟩
    · have htext : (pretty depth (ofMembers (m :: rest))).toList
          = '\x7b' :: '\n' :: ((prettyMembers (depth + 1) ((m :: rest).map
              fun m => (some m.1, m.2))).toList
            ++ '\n' :: ((margin depth).toList ++ ['\x7d'])) := by
        rw [ofMembers, pretty]
        · simp
        · nofun
      rw [htext]
      have hclose :=
        ((Spells.nil.punctuation (c := '\x7d') rfl).margin depth).space (c := '\n') rfl
      exact ((hspells.append rfl hclose).space rfl).punctuation rfl
    · show List.foldlM Progress.push (.afterName [] (some m.1) frames)
        (ts ++ [Token.closeObject]) = _
      rw [List.foldlM_append, hread]
      simp [Progress.push, ofMembers]

/-- A value is written as a text that denotes it. -/
theorem Written.denotes {v : Json} (h : Written v) (depth : Nat) :
    Denotes (pretty depth v).toList v := by
  induction h generalizing depth with
  | null =>
    rw [pretty]
    exact Spells.denotes (.word rfl rfl)
  | bool b =>
    cases b with
    | false =>
      rw [pretty]
      exact Spells.denotes (.word rfl rfl)
    | true =>
      rw [pretty]
      exact Spells.denotes (.word rfl rfl)
  | nat n =>
    rw [pretty]
    exact Spells.denotes (.nat n)
  | text s =>
    rw [Json.text, pretty]
    exact ⟨_, by simpa using Spells.nil.string s, fun _ => rfl⟩
  | array _ ih => exact denotes_array fun v hv => ih v hv (depth + 1)
  | object _ ih => exact denotes_object fun m hm => ih m hm (depth + 1)

/-- What was written is read again. -/
theorem parse?_print {v : Json} (h : Written v) : parse? v.print = some v := (h.denotes 0).parse?_eq

end CacheCoherence.Json
