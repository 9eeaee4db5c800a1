import CacheCoherence.Config.Json
import CacheCoherence.Proofs.Json.Packets

/-!
# Settings — configurations as texts

A text may give any of the members of a configuration, at every depth. Reading it comes to writing
the defaults down and putting what is given in their place: the members that are given are taken,
and all others keep their defaults. These are the defaults of `Config`, except for banks that are
given in part, whose defaults are those of a private cache.
-/

namespace CacheCoherence

open Json (Record Written)

namespace Json

/-! ## What is given over what is known -/

mutual

/-- The value `v` put over another: in an object it replaces the members that it gives, in their
turn put over what was there, and anything else it replaces as a whole. -/
def onto (v : Json) : Json → Json
  | object members =>
      match v with
      | object given => object (membersOnto given members)
      | v => v
  | _ => v

/-- The members of an object with those that are given put over them. -/
def membersOnto (given : List (JsonText × Json)) : List (JsonText × Json) → List (JsonText × Json)
  | [] => []
  | (name, b) :: rest =>
      (name, (given.lookup name).elim b fun v => v.onto b) :: membersOnto given rest

end

/-- The member of an object with a given name. -/
def member? (name : String) : Json → Option Json
  | object members => members.lookup (some name)
  | _ => none

variable {names : List String} {name : String} {given : List (JsonText × Json)}
  {r r' defaults : Record} {v : Json}

theorem membersOnto_eq (given : List (JsonText × Json)) (defaults : Record) :
    object (membersOnto given (defaults.map fun m => (some m.1, m.2))) = ofMembers (defaults.map
      fun m => (m.1, (given.lookup (some m.1)).elim m.2 fun v => v.onto m.2)) := by
  rw [ofMembers]
  congr 1
  induction defaults with
  | nil => rfl
  | cons m rest ih => simp [membersOnto, ih]

/-- Looking among values that depend on their names. -/
theorem lookup_map (members : Record) (f : String → Json → Json) (name : String) :
    (members.map fun m => (m.1, f m.1 m.2)).lookup name = (members.lookup name).map (f name) := by
  induction members with
  | nil => rfl
  | cons m rest ih =>
    rw [List.map_cons, List.lookup_cons, List.lookup_cons, ih]
    cases hname : name == m.1 with
    | false => rfl
    | true => rw [eq_of_beq hname]; rfl

theorem lookup_filter (members : Record) (hname : name ∈ names) :
    (members.filter fun m => names.contains m.1).lookup name = members.lookup name := by
  induction members with
  | nil => rfl
  | cons m rest ih =>
    rw [List.filter_cons, List.lookup_cons]
    cases heq : name == m.1 with
    | false =>
      split
      · rw [List.lookup_cons, heq, ih]
      · exact ih
    | true =>
      have hm : names.contains m.1 = true := by simpa [← eq_of_beq heq] using hname
      rw [if_pos hm, List.lookup_cons, heq]

theorem lookup_of_mapM {members : Record}
    (h : (given.mapM fun ((name, v) : JsonText × Json) => name.map (·, v)) = some members) :
    given.lookup (some name) = members.lookup name := by
  induction given generalizing members with
  | nil =>
    cases h
    rfl
  | cons m rest ih =>
    rw [List.mapM_cons] at h
    obtain ⟨m', hm', h⟩ := Option.bind_eq_some_iff.1 h
    obtain ⟨rest', hrest', h⟩ := Option.bind_eq_some_iff.1 h
    cases h
    obtain ⟨name', hname', rfl⟩ := Option.map_eq_some_iff.1 hm'
    rw [List.lookup_cons, List.lookup_cons, hname', ih hrest', Option.some_beq_some]

/-- A record has the members that are known as the object has from which it was read. -/
theorem lookup_of_record? (hr : (object given).record? names = some r) (hname : name ∈ names) :
    given.lookup (some name) = r.lookup name := by
  obtain ⟨members, hread, hr⟩ := Option.bind_eq_some_iff.1 hr
  obtain ⟨-, hr⟩ := Option.ite_none_right_eq_some.1 hr
  cases hr
  exact (lookup_of_mapM hread).trans (lookup_filter members hname).symm

/-- The members of `r'` are those of `r`, put over the defaults, and the defaults for those that
`r` does not have. -/
def Completes (r' r defaults : Record) : Prop :=
  ∀ name b, defaults.lookup name = some b →
    r'.lookup name = some ((r.lookup name).elim b fun v => v.onto b)

theorem record?_onto (base : Json) (hr : (object given).record? names = some r)
    (hnodup : names.Nodup) (hbase : base = ofMembers defaults)
    (hnames : defaults.map Prod.fst = names) :
    ∃ r', ((object given).onto base).record? names = some r' ∧ Completes r' r defaults := by
  refine ⟨defaults.map fun m => (m.1, (given.lookup (some m.1)).elim m.2 fun v => v.onto m.2),
    ?_, fun name b hb => ?_⟩
  · have honto : (object given).onto base = object (membersOnto given
        (defaults.map fun m => (some m.1, m.2))) := by
      rw [hbase, ofMembers, onto]
    rw [honto, membersOnto_eq]
    exact record?_ofMembers (by simpa [Function.comp_def] using hnames) hnodup
  · have hname : name ∈ names := by
      obtain ⟨before, after, hsplit, -⟩ := List.lookup_eq_some_iff.1 hb
      rw [← hnames, hsplit]
      simp
    rw [lookup_map defaults fun name b => (given.lookup (some name)).elim b fun v => v.onto b, hb,
      lookup_of_record? hr hname]
    rfl

namespace Completes

variable {α : Type} {read : Json → Option α} {b : Json} {default x : α}

/-- A member is read as it was read from what is given. -/
theorem memberOr?_eq (h : Completes r' r defaults) (hb : defaults.lookup name = some b)
    (hgiven : ∀ v, r.lookup name = some v → read v = some x → read (v.onto b) = some x)
    (hleft : r.lookup name = none → read b = some default)
    (hx : r.memberOr? name read default = some x) : r'.memberOr? name read default = some x := by
  rw [Record.memberOr?] at hx
  rw [Record.memberOr?, h name b hb]
  cases hv : r.lookup name with
  | none =>
    rw [hv] at hx
    cases hx
    exact hleft hv
  | some v =>
    rw [hv] at hx
    exact hgiven v hv hx

theorem word {name : String} {n x : UInt64} (h : Completes r' r defaults)
    (hb : defaults.lookup name = some (.ofWord n)) (hx : r.memberOr? name word? n = some x) :
    r'.memberOr? name word? n = some x :=
  h.memberOr?_eq hb (fun _ _ hv => hv) (fun _ => word?_ofWord n) hx

theorem half {name : String} {n x : UInt32} (h : Completes r' r defaults)
    (hb : defaults.lookup name = some (.ofHalf n)) (hx : r.memberOr? name half? n = some x) :
    r'.memberOr? name half? n = some x :=
  h.memberOr?_eq hb (fun _ _ hv => hv) (fun _ => half?_ofHalf n) hx

/-- A member is read so if what is read of it is also read of what is put over its default. -/
theorem nested (h : Completes r' r defaults) (hb : defaults.lookup name = some b)
    (honto : ∀ {v x}, read v = some x → read (v.onto b) = some x) (hdefault : read b = some default)
    (hx : r.memberOr? name read default = some x) : r'.memberOr? name read default = some x :=
  h.memberOr?_eq hb (fun _ _ hv => honto hv) (fun _ => hdefault) hx

end Completes

end Json

/-! ## Sections -/

theorem CacheGeometry.ofJson?_onto {v : Json} {g : CacheGeometry} (h : ofJson? v = some g) :
    ofJson? (v.onto ({} : CacheGeometry).toJson) = some g := by
  cases v with
  | object given =>
    simp only [ofJson?, Option.bind_eq_bind, Option.bind_eq_some_iff, Option.pure_def] at h ⊢
    obtain ⟨r, hr, size, hsize, line, hline, ways, hways, hit, hhit, lookup, hlookup, h⟩ := h
    obtain ⟨r', hr', hc⟩ := Json.record?_onto (toJson {}) hr (by decide) rfl rfl
    exact ⟨r', hr', size, hc.word rfl hsize, line, hc.word rfl hline, ways, hc.word rfl hways, hit,
      hc.word rfl hhit, lookup, hc.word rfl hlookup, h⟩
  | _ => exact h

theorem NodeConfig.ofJson?_onto {v : Json} {c : NodeConfig} (h : ofJson? v = some c) :
    ofJson? (v.onto ({} : NodeConfig).toJson) = some c := by
  cases v with
  | object given =>
    simp only [ofJson?, Option.bind_eq_bind, Option.bind_eq_some_iff, Option.pure_def] at h ⊢
    obtain ⟨r, hr, cache, hcache, mshr, hmshr, credits, hcredits, h⟩ := h
    obtain ⟨r', hr', hc⟩ := Json.record?_onto (toJson {}) hr (by decide) rfl rfl
    have hcache' := hc.nested rfl CacheGeometry.ofJson?_onto (CacheGeometry.ofJson?_toJson _) hcache
    exact ⟨r', hr', cache, hcache', mshr, hc.word rfl hmshr, credits, hc.half rfl hcredits, h⟩
  | _ => exact h

theorem MessageTags.ofJson?_onto {v : Json} {t : MessageTags} (h : ofJson? v = some t) :
    ofJson? (v.onto ({} : MessageTags).toJson) = some t := by
  cases v with
  | object given =>
    simp only [ofJson?, Option.bind_eq_bind, Option.bind_eq_some_iff, Option.pure_def] at h ⊢
    obtain ⟨r, hr, coherence, hcoherence, memory, hmemory, credit, hcredit, h⟩ := h
    obtain ⟨r', hr', hc⟩ := Json.record?_onto (toJson {}) hr (by decide) rfl rfl
    exact ⟨r', hr', coherence, hc.half rfl hcoherence, memory, hc.half rfl hmemory, credit,
      hc.half rfl hcredit, h⟩
  | _ => exact h

theorem MemoryConfig.ofJson?_onto {v : Json} {c : MemoryConfig} (h : ofJson? v = some c) :
    ofJson? (v.onto ({} : MemoryConfig).toJson) = some c := by
  cases v with
  | object given =>
    simp only [ofJson?, Option.bind_eq_bind, Option.bind_eq_some_iff, Option.pure_def] at h ⊢
    obtain ⟨r, hr, controller, hcontroller, latency, hlatency, cas, hcas, ras, hras, pre, hpre,
      h⟩ := h
    obtain ⟨r', hr', hc⟩ := Json.record?_onto (toJson {}) hr (by decide) rfl rfl
    exact ⟨r', hr', controller, hc.nested rfl id (MemoryModel.name?_name _) hcontroller, latency,
      hc.word rfl hlatency, cas, hc.word rfl hcas, ras, hc.word rfl hras, pre, hc.word rfl hpre, h⟩
  | _ => exact h

theorem Topology.ofJson?_onto {v : Json} {t : Topology} (h : ofJson? v = some t) :
    ofJson? (v.onto ({} : Topology).toJson) = some t := by
  cases v with
  | object given =>
    simp only [ofJson?, Option.bind_eq_bind, Option.bind_eq_some_iff, Option.pure_def] at h ⊢
    obtain ⟨r, hr, cores, hcores, banks, hbanks, memories, hmemories, bits, hbits, latency,
      hlatency, h⟩ := h
    obtain ⟨r', hr', hc⟩ := Json.record?_onto (toJson {}) hr (by decide) rfl rfl
    exact ⟨r', hr', cores, hc.word rfl hcores, banks, hc.word rfl hbanks, memories,
      hc.word rfl hmemories, bits, hc.half rfl hbits, latency, hc.word rfl hlatency, h⟩
  | _ => exact h

/-! ## Configurations -/

/-- The defaults of what the value leaves out. A bank that it gives in part has those of a private
cache. -/
def Config.defaultsFor (v : Json) : Config :=
  { l2 := if (v.member? "l2").isSome then {} else ({} : Config).l2 }

/-- A value is read as if it were put over its defaults. -/
theorem Config.ofJson?_onto {v : Json} {c : Config} (h : ofJson? v = some c) :
    ofJson? (v.onto (defaultsFor v).toJson) = some c := by
  cases v with
  | object given =>
    simp only [ofJson?, Option.bind_eq_bind, Option.bind_eq_some_iff, Option.pure_def] at h ⊢
    obtain ⟨r, hr, topology, htopology, l1, hl1, l2, hl2, memory, hmemory, tags, htags, cycles,
      hcycles, h⟩ := h
    obtain ⟨r', hr', hc⟩ :=
      Json.record?_onto (toJson (defaultsFor (.object given))) hr (by decide) rfl rfl
    have hmember : (Json.object given).member? "l2" = r.lookup "l2" :=
      Json.lookup_of_record? hr (by decide)
    have htopology' := hc.nested rfl Topology.ofJson?_onto (Topology.ofJson?_toJson _) htopology
    have hl1' := hc.nested rfl NodeConfig.ofJson?_onto (NodeConfig.ofJson?_toJson _) hl1
    have hmemory' := hc.nested rfl MemoryConfig.ofJson?_onto (MemoryConfig.ofJson?_toJson _) hmemory
    have htags' := hc.nested rfl MessageTags.ofJson?_onto (MessageTags.ofJson?_toJson _) htags
    refine ⟨r', hr', topology, htopology', l1, hl1', l2,
      hc.memberOr?_eq rfl (fun v hv hread => ?_) (fun hv => ?_) hl2, memory, hmemory', tags, htags',
      cycles, hc.word rfl hcycles, h⟩
    · have hpart : (defaultsFor (.object given)).l2 = {} := by
        rw [defaultsFor, hmember, hv]
        rfl
      rw [hpart]
      exact NodeConfig.ofJson?_onto hread
    · have hwhole : (defaultsFor (.object given)).l2 = ({} : Config).l2 := by
        rw [defaultsFor, hmember, hv]
        rfl
      rw [hwhole, NodeConfig.ofJson?_toJson]
  | _ => exact h

/-- A configuration text that is accepted gives its defaults with what it gives put over them. -/
theorem Config.ofText_onto {text : String} {c : Config} (h : ofText text = .ok c) :
    ∃ v, Json.parse? text = some v ∧ ofJson? (v.onto (defaultsFor v).toJson) = some c := by
  rw [ofText] at h
  split at h
  · cases h
  · next c' hc' =>
    obtain ⟨v, hv, hread⟩ := Option.bind_eq_some_iff.1 hc'
    split at h
    · cases h
      exact ⟨v, hv, ofJson?_onto hread⟩
    · cases h

-- A bank of which anything is given is looked up as fast as a private cache.
example : (Config.parse? "\x7b\"l2\": \x7b\"mshr_entries\": 4\x7d\x7d").map
    (fun c => (c.l2.cache.lookupTime, c.l2.mshrEntries)) = some (1, 4) := by
  decide

/-! ## Reading what was written -/

theorem CacheGeometry.written_toJson (g : CacheGeometry) : Written g.toJson :=
  .object (by simp [Json.written_ofWord])

theorem NodeConfig.written_toJson (c : NodeConfig) : Written c.toJson :=
  .object (by simp [Json.written_ofWord, Json.written_ofHalf, CacheGeometry.written_toJson])

theorem MessageTags.written_toJson (t : MessageTags) : Written t.toJson :=
  .object (by simp [Json.written_ofHalf])

theorem MemoryConfig.written_toJson (c : MemoryConfig) : Written c.toJson :=
  .object (by simp [Written.text, Json.written_ofWord])

theorem Topology.written_toJson (t : Topology) : Written t.toJson :=
  .object (by simp [Json.written_ofWord, Json.written_ofHalf])

theorem Config.written_toJson (c : Config) : Written c.toJson :=
  .object (by simp [Json.written_ofWord, NodeConfig.written_toJson, MessageTags.written_toJson,
    MemoryConfig.written_toJson, Topology.written_toJson])

/-- A configuration is written as one text that denotes its value. Every such text is read as just
this configuration if it is valid, and refused with what is wrong with it otherwise. -/
theorem Config.ofText_written (c : Config) :
    Json.parse? c.toJson.print = some c.toJson ∧
      ∀ text, Json.parse? text = some c.toJson →
        (c.validate = .ok () → ofText text = .ok c) ∧
        ∀ e, c.validate = .error e → ofText text = .error (.refused e) := by
  refine ⟨Json.parse?_print c.written_toJson, ?_⟩
  intro text htext
  have hread : parse? text = some c := by
    rw [parse?, htext, Option.bind_some, ofJson?_toJson]
  constructor
  · intro hvalid
    simp only [ofText, hread, hvalid]
  · intro e hrefused
    simp only [ofText, hread, hrefused]

/-- The largest numbers are written and read as they are, also where they are refused. -/
theorem Config.ofText_written_of_dram :
    let memory : MemoryConfig := { controller := .dram, latency := .ofNat (UInt64.size - 1) }
    let c : Config := { memory, maxCycles := .ofNat (UInt64.size - 1) }
    let wide : Config := { c with topology.pageOffsetBits := .ofNat (UInt32.size - 1) }
    ofText c.toJson.print = .ok c ∧
      ofText wide.toJson.print = .error (.refused (.pageOffset (UInt32.size - 1))) := by
  intro memory c wide
  have hvalid : c.validate = .ok () := by
    unfold c memory
    decide
  have hwide : wide.validate = .error (.pageOffset (UInt32.size - 1)) := by
    unfold wide c memory
    decide
  constructor
  · exact ((ofText_written c).2 _ (ofText_written c).1).1 hvalid
  · exact ((ofText_written wide).2 _ (ofText_written wide).1).2 _ hwide

end CacheCoherence
