import CacheCoherence.Proofs.PrivateCache.Posts

/-!
# Turns — a cycle of a private cache in small steps

Within one cycle a private cache takes turns: it takes the next event up, or tries one woken
request again. A turn handles one request or one packet, and queues at most one response. What a
cache does to its events in one cycle is a run of such turns.
-/

namespace CacheCoherence.PrivateCache

/-- A turn of the cache `c`, which has the events `es` to handle: it does `w`, and `es'` are left
to handle. -/
inductive Turn : PrivateCache → List ClientInput → Work PrivateCache → List ClientInput → Prop
  /-- A woken request is tried again. -/
  | retry {c d : PrivateCache} {es : List ClientInput} {x : Parked Request}
      {rest : List (Parked Request)} (hq : c.backlog.retries = x :: rest)
      (hd : (c.retrying rest).process x.item false = .ok d) : Turn c es (.done d) es
  /-- A request of the processor is taken up. -/
  | request {c d : PrivateCache} {q : Request} {rest : List ClientInput}
      (hd : (({ c with inbound := rest } : PrivateCache).countRequest q).process q true = .ok d) :
      Turn c (.request q :: rest) (.done d) rest
  /-- A packet is taken up. -/
  | packet {c : PrivateCache} {p : Packet} {rest : List ClientInput}
      (hf : (({ c with inbound := rest } : PrivateCache).dispatch p).fault = none) :
      Turn c (.packet p :: rest) (({ c with inbound := rest } : PrivateCache).dispatch p) rest

/-- The turn on the event that is first in line, where that is a packet. -/
def takePacket? (c : PrivateCache) : Option (Work PrivateCache) :=
  match c.inbound with
  | .packet p :: rest => some (({ c with inbound := rest } : PrivateCache).dispatch p)
  | _ => none

theorem turn_of_takePacket? {c : PrivateCache} {w : Work PrivateCache}
    (h : c.takePacket? = some w) (hf : w.fault = none) : ∃ es, c.Turn c.inbound w es := by
  unfold takePacket? at h
  split at h
  · next p rest hin =>
    cases h
    rw [hin]
    exact ⟨rest, .packet hf⟩
  · cases h

/-- Any number of turns. -/
inductive Turns : PrivateCache → List ClientInput → Work PrivateCache → List ClientInput → Prop
  | start {c : PrivateCache} {es : List ClientInput} : Turns c es (.done c) es
  | more {c : PrivateCache} {es es' es'' : List ClientInput} {w w' : Work PrivateCache}
      (h : Turns c es w es') (ht : Turn w.node es' w' es'') :
      Turns c es { w' with sent := w.sent ++ w'.sent } es''

variable {c d : PrivateCache} {es es' es'' : List ClientInput} {w w' : Work PrivateCache}

theorem Turn.fault (h : Turn c es w es') : w.fault = none := by
  cases h with
  | retry | request => rfl
  | packet hf => exact hf

theorem Turns.fault (h : Turns c es w es') : w.fault = none := by
  cases h with
  | start => rfl
  | more _ ht => exact ht.fault

theorem Turns.single (h : Turn c es w es') : Turns c es w es' := .more .start h

theorem Turns.trans (h : Turns c es w es') (h' : Turns w.node es' w' es'') :
    Turns c es { w' with sent := w.sent ++ w'.sent } es'' := by
  induction h' with
  | start =>
    obtain ⟨node, sent, fault⟩ := w
    cases h.fault
    show Turns c es ⟨node, sent ++ [], Option.none⟩ es'
    rwa [List.append_nil]
  | more _ ht ih =>
    have hmore := ih.more ht
    rwa [List.append_assoc] at hmore

/-- Work in two parts is done in turns if both parts are. -/
theorem Turns.andThen {next : PrivateCache → Work PrivateCache} (h : Turns c es w es')
    (h' : Turns w.node es' (next w.node) es'') : Turns c es (w.andThen next) es'' := by
  rw [Work.andThen, h.fault]
  exact h.trans h'

/-- Woken requests are tried again one after another. -/
theorem turns_drain (hf : c.drain.fault = none) (es : List ClientInput) :
    Turns c es c.drain es := by
  induction c using drain.induct with
  | case1 c hq =>
    rw [drain_nil hq]
    exact .start
  | case2 c x rest hq fault hp =>
    rw [drain_cons hq, hp] at hf
    cases hf
  | case3 c x rest hq d hp hdec ih =>
    have hdrain : c.drain = (Work.done d).andThen drain := by rw [drain_cons hq, hp]; rfl
    rw [hdrain] at hf ⊢
    refine (Turns.single (.retry hq hp)).andThen (ih ?_)
    rwa [Work.andThen_done] at hf

/-- A request that is not refused is taken up in one turn. -/
theorem turns_request {c₁ : PrivateCache} {q : Request} {rest : List ClientInput}
    (hc : ({ c with inbound := rest } : PrivateCache).countRequest q = c₁)
    (hf : (Work.ofExcept c₁ (c₁.process q true)).fault = none) :
    Turns c (.request q :: rest) (Work.ofExcept c₁ (c₁.process q true)) rest := by
  subst hc
  cases hd : (({ c with inbound := rest } : PrivateCache).countRequest q).process q true with
  | error f =>
    rw [hd] at hf
    cases hf
  | ok d => exact .single (.request hd)

/-- An event is taken up, and all that it causes is done in turns. -/
theorem turns_react {e : ClientInput} {rest : List ClientInput}
    (hf : (({ c with inbound := rest } : PrivateCache).react e).fault = none) :
    Turns c (e :: rest) (({ c with inbound := rest } : PrivateCache).react e) rest := by
  cases e with
  | request q =>
    obtain ⟨hfirst, hdrain⟩ := Work.andThen_fault_eq_none.1 hf
    exact (turns_request rfl hfirst).andThen (turns_drain hdrain rest)
  | packet p =>
    obtain ⟨hfirst, hdrain⟩ := Work.andThen_fault_eq_none.1 hf
    exact (Turns.single (.packet hfirst)).andThen (turns_drain hdrain rest)

/-- What a cache does to its events in one cycle, it does in turns. -/
theorem turns_handled (hf : c.handled.fault = none) :
    Turns c.beginCycle c.inbound c.handled [] := by
  have hall : ∀ (es : List ClientInput) (d : PrivateCache),
      (Work.through (fun c queue => { c with inbound := queue }) react d es).fault = none →
      Turns d es (Work.through (fun c queue => { c with inbound := queue }) react d es) [] := by
    intro es
    induction es with
    | nil => exact fun d _ => .start
    | cons e rest ih =>
      intro d hf
      obtain ⟨hreact, hrest⟩ := Work.andThen_fault_eq_none.1 hf
      exact (turns_react hreact).andThen (ih _ hrest)
  exact hall c.inbound c.beginCycle hf

/-- After the events no response is queued; those that are due leave. -/
theorem responses_tick (hf : c.tick.1.fault = none) : c.handled.fault = none ∧
    c.tick.1.node.responses = c.handled.node.responses.remaining c.handled.node.cycle := by
  have htick : c.tick.1 = (c.handled.andThen flush).andThen fun c => .done c.collect := c.tick_eq
  have hflushed := (Work.andThen_fault_eq_none.1 (htick ▸ hf)).1
  have hhandled := (Work.andThen_fault_eq_none.1 hflushed).1
  refine ⟨hhandled, ?_⟩
  rw [htick, Work.andThen_node hflushed, Work.andThen_node hhandled]
  rfl

end CacheCoherence.PrivateCache
