import OpenQasm.Proofs.Grammar.Reading

/-!
# Rules for reading

How each piece that productions are made of takes a held state to the next one. Each rule is about
a piece with what comes after it, so that the proof for a production follows its text from the
first token to the node it pushes.
-/

namespace OpenQasm.Grammar

section
variable {α β : Type} {parser : Parser α} {next : α → Parser β} {context : Context}
  {state after : State}

/-- A sequence goes on with the answer of its first parser. -/
theorem bind_of_ok {value : α} (h : parser context state = .ok value after) :
    (parser >>= next) context state = next value context after := by
  simp only [Bind.bind, ReaderT.bind, EStateM.bind, h]

/-- A look at the state goes on with it. -/
theorem get_bind {next : State → Parser β} :
    (get >>= next) context state = next state context state := rfl

/-- A look at the context goes on with it. -/
theorem read_bind {next : Context → Parser β} :
    (read >>= next) context state = next context context state := rfl

/-- A change of the state goes on from the changed one. -/
theorem modify_bind {change : State → State} {next : Unit → Parser β} :
    (modify change >>= next) context state = next () context (change state) := rfl

/-- A state that is set is the one to go on from. -/
theorem set_bind {next : PUnit → Parser β} :
    (set after >>= next) context state = next ⟨⟩ context after := rfl

/-- A sequence fails where its first parser does. -/
theorem bind_of_error {failure : Stop} (h : parser context state = .error failure after) :
    (parser >>= next) context state = .error failure after := by
  simp only [Bind.bind, ReaderT.bind, EStateM.bind, h]

end

namespace Reading

variable {reading : Reading}

/-! ## Control -/

section
variable {α β γ : Type} {parser : Parser α} {next : α → Parser β} {state : State}
  {post : α → State → Prop} {stop : State → Prop}

/-- What a run ends in may be weakened. -/
theorem Runs.conseq {p : α → State → Prop} {s : State → Prop}
    (h : reading.Runs parser state p s) (hp : ∀ value after, p value after → post value after)
    (hs : ∀ after, s after → stop after) : reading.Runs parser state post stop := by
  unfold Runs at *
  split at h
  · exact hp _ _ h
  · exact hs _ h
  · exact h

/-- A parser yields what it yields, too. -/
theorem Runs.eq (h : reading.Runs parser state post stop) :
    reading.Runs parser state (fun value after =>
      parser reading.context state = .ok value after ∧ post value after) stop := by
  unfold Runs at *
  cases hr : parser reading.context state with
  | ok value after =>
    rw [hr] at h
    exact ⟨rfl, h⟩
  | error failure after =>
    rw [hr] at h
    cases failure <;> exact h

/-- An answer ends at once. -/
theorem Runs.pure {value : α} (h : post value state) :
    reading.Runs (pure value) state post stop := h

/-- A sequence runs through what lies between its parsers. -/
theorem Runs.bind {p : α → State → Prop} {post : β → State → Prop}
    (h : reading.Runs parser state p stop)
    (hn : ∀ value after, p value after → reading.Runs (next value) after post stop) :
    reading.Runs (parser >>= next) state post stop := by
  unfold Runs at *
  cases hr : parser reading.context state with
  | ok value after =>
    rw [hr] at h
    rw [bind_of_ok hr]
    exact hn value after h
  | error failure after =>
    rw [hr] at h
    rw [bind_of_error hr]
    cases failure <;> exact h

/-- Sequences are read from the left. -/
theorem Runs.assoc {next : α → Parser β} {last : β → Parser γ} {post : γ → State → Prop}
    (h : reading.Runs (parser >>= fun value => next value >>= last) state post stop) :
    reading.Runs (parser >>= next >>= last) state post stop := by
  rwa [bind_assoc]

/-- A value that is there already. -/
theorem Runs.pure_bind {value : α} {post : β → State → Prop}
    (h : reading.Runs (next value) state post stop) :
    reading.Runs (Pure.pure value >>= next) state post stop := h

/-- A choice runs if each side does under its condition. -/
theorem Runs.ite {c : Prop} [Decidable c] {parser' : Parser α}
    (ht : c → reading.Runs parser state post stop)
    (hf : ¬c → reading.Runs parser' state post stop) :
    reading.Runs (if c then parser else parser') state post stop := by
  split
  · exact ht ‹_›
  · exact hf ‹_›

/-- So does a choice with what comes after it. -/
theorem Runs.ite_bind {c : Prop} [Decidable c] {parser' : Parser α} {post : β → State → Prop}
    (ht : c → reading.Runs (parser >>= next) state post stop)
    (hf : ¬c → reading.Runs (parser' >>= next) state post stop) :
    reading.Runs ((if c then parser else parser') >>= next) state post stop := by
  split
  · exact ht ‹_›
  · exact hf ‹_›

/-- Two branches that go on alike are one choice before what comes after it. -/
theorem Runs.join {test : Parser Bool} {yes no : Parser α} {post : β → State → Prop}
    (h : reading.Runs ((test >>= fun c => if c = true then yes else no) >>= next) state post stop) :
    reading.Runs (test >>= fun c => if c = true then yes >>= next else no >>= next) state post
      stop := by
  have hb : (fun c => if c = true then yes >>= next else no >>= next) =
      fun c => (if c = true then yes else no) >>= next := by
    funext c
    split <;> rfl
  rwa [hb, ← bind_assoc]

/-- An answer may be changed before going on. -/
theorem Runs.map_bind {f : α → β} {next : β → Parser γ} {post : γ → State → Prop}
    (h : reading.Runs (parser >>= fun value => next (f value)) state post stop) :
    reading.Runs (f <$> parser >>= next) state post stop := by
  rwa [bind_map_left]

/-- Or at the end. -/
theorem Runs.map {f : α → β} {post : β → State → Prop}
    (h : reading.Runs parser state (fun value => post (f value)) stop) :
    reading.Runs (f <$> parser) state post stop := by
  rw [map_eq_pure_bind]
  exact Runs.bind h fun _ _ hv => hv

/-- The state is looked at and reading goes on. -/
theorem Runs.get {next : State → Parser α} (h : reading.Runs (next state) state post stop) :
    reading.Runs (get >>= next) state post stop := h

/-- The context is looked at and reading goes on. -/
theorem Runs.read {next : Context → Parser α}
    (h : reading.Runs (next reading.context) state post stop) :
    reading.Runs (read >>= next) state post stop := h

/-- The state is changed and reading goes on. -/
theorem Runs.modify {change : State → State} {next : Unit → Parser α}
    (h : reading.Runs (next ()) (change state) post stop) :
    reading.Runs (modify change >>= next) state post stop := h

/-- A parser runs between two changes, which are undone however it ends. -/
theorem Runs.around {enter leave : State → State}
    (h : reading.Runs parser (enter state) (fun value after => post value (leave after))
      fun after => stop (leave after)) :
    reading.Runs (around enter leave parser) state post stop := by
  unfold Runs Grammar.around at *
  cases hr : parser reading.context (enter state) with
  | ok value after => rw [hr] at h; exact h
  | error failure after =>
    rw [hr] at h
    cases failure <;> exact h

/-- A failure that is caught is an answer without a value. -/
theorem Runs.attempt {p : Option α → State → Prop}
    (h : reading.Runs parser state (fun value => p (some value)) (p none)) :
    reading.Runs (attempt parser) state p stop := by
  unfold Runs Grammar.attempt at *
  cases hr : parser reading.context state with
  | ok value after => rw [hr] at h; exact h
  | error failure after =>
    rw [hr] at h
    cases failure <;> exact h

/-- A loop keeps what each of its rounds keeps, if every round but the last reads a token. -/
theorem Runs.iterate {round : α → Parser (Turn α β)} (inv : α → State → Prop)
    {post : β → State → Prop}
    (hround : ∀ value state, inv value state → reading.Runs (round value) state
      (fun turn after =>
        match turn with
        | .again value => inv value after ∧ after.rest.length < state.rest.length
        | .done result => post result after) stop)
    {value : α} (hinv : inv value state) :
    reading.Runs (iterate round value) state post stop := by
  suffices h : ∀ (tokens : List Token) value state, inv value state →
      state.rest.length ≤ tokens.length →
      reading.Runs (iterateAlong round tokens value) state post stop from
    h state.rest value state hinv (Nat.le_refl _)
  intro tokens
  induction tokens with
  | nil =>
    intro value state hinv hle
    refine Runs.bind (hround value state hinv) fun turn after hturn => ?_
    cases turn with
    | done result => exact hturn
    | again value =>
      have := hturn.2
      simp only [List.length_nil] at hle
      omega
  | cons token tokens ih =>
    intro value state hinv hle
    refine Runs.bind (hround value state hinv) fun turn after hturn => ?_
    cases turn with
    | done result => exact hturn
    | again value =>
      have := hturn.2
      rw [List.length_cons] at hle
      exact ih value after hturn.1 (by omega)

end

/-! ## Values -/

/-- What holds whenever a parser yields something. -/
def WhenOk {α : Type} (reading : Reading) (parser : Parser α) (state : State)
    (post : α → State → Prop) : Prop :=
  ∀ value after, parser reading.context state = .ok value after → post value after

section
variable {α β : Type} {parser : Parser α} {next : α → Parser β} {state : State}

/-- What is known of every end is known of the good ones. -/
theorem Runs.whenOk {post : α → State → Prop} {stop : State → Prop}
    (h : reading.Runs parser state post stop) : reading.WhenOk parser state post :=
  fun value after hok => by
    unfold Runs at h
    rwa [hok] at h

/-- A parser that answers between two changes answers behind the second. -/
theorem WhenOk.around {enter leave : State → State} {post : α → State → Prop}
    (h : reading.WhenOk parser (enter state) fun value after => post value (leave after)) :
    reading.WhenOk (around enter leave parser) state post := by
  intro value after hok
  unfold Grammar.around at hok
  split at hok
  · next hinside =>
    obtain ⟨rfl, rfl⟩ := EStateM.Result.ok.inj hok
    exact h _ _ hinside
  · cases hok

/-- A choice answers as one of its sides. -/
theorem WhenOk.ite {c : Prop} [Decidable c] {parser' : Parser α} {post : α → State → Prop}
    (ht : c → reading.WhenOk parser state post) (hf : ¬c → reading.WhenOk parser' state post) :
    reading.WhenOk (if c then parser else parser') state post := by
  split
  · exact ht ‹_›
  · exact hf ‹_›

/-- What is known of an answer may be weakened. -/
theorem WhenOk.conseq {p post : α → State → Prop} (h : reading.WhenOk parser state p)
    (hp : ∀ value after, p value after → post value after) :
    reading.WhenOk parser state post := fun value after hok => hp value after (h value after hok)

/-- A sequence answers through the answer of its first parser. -/
theorem WhenOk.bind {p : α → State → Prop} {post : β → State → Prop}
    (h : reading.WhenOk parser state p)
    (hn : ∀ value after, parser reading.context state = .ok value after → p value after →
      reading.WhenOk (next value) after post) :
    reading.WhenOk (parser >>= next) state post := by
  intro value after hok
  cases hfirst : parser reading.context state with
  | ok first middle =>
    rw [bind_of_ok hfirst] at hok
    exact hn first middle hfirst (h first middle hfirst) value after hok
  | error failure middle =>
    rw [bind_of_error hfirst] at hok
    cases hok

end

/-! ## Names and versions -/

/-- The version in force is settled past the start of the text, and before all statements but a
version. -/
def VersionSettled (state : State) : Prop :=
  0 < state.position ∨ startsWith Keyword.kwVersion state.rest = false

/-- What declaring names and setting the version may change: the names of the innermost scope, and
the version as long as it is not settled. Nothing changes unless `declares` holds. -/
structure Revised (declares : Prop) (base after : State) : Prop where
  state : after = { base with scopes := after.scopes, version := after.version }
  outer : after.scopes.tail = base.scopes.tail
  count : after.scopes.length = base.scopes.length
  version : VersionSettled base → after.version = base.version
  fixed : declares ∨ after = base

section
variable {declares : Prop} {base middle after : State}

/-- A state revises itself. -/
theorem Revised.refl (base : State) : Revised declares base base where
  state := rfl
  outer := rfl
  count := rfl
  version := fun _ => rfl
  fixed := .inr rfl

/-- Two revisions are one. -/
theorem Revised.trans (h : Revised declares base middle) (h' : Revised declares middle after) :
    Revised declares base after where
  state := by rw [h'.state, h.state]
  outer := h'.outer.trans h.outer
  count := h'.count.trans h.count
  version := fun hp => by
    have hm : VersionSettled middle := by
      rw [h.state]
      exact hp
    exact (h'.version hm).trans (h.version hp)
  fixed := by
    rcases h'.fixed with hd | rfl
    · exact .inl hd
    · exact h.fixed

/-- A revision that declares nothing is one that may declare. -/
theorem Revised.mono (h : Revised False base after) : Revised declares base after := by
  obtain rfl := h.fixed.resolve_left id
  exact .refl _

end

/-! ## What productions yield -/

/-- The state after a production that yields one node. -/
def Yields (reading : Reading) (declares : Prop) (slot : Slot) (levels : Nat) (base : State)
    (node : Placed) (state : State) : Prop :=
  ∃ base' read ahead, Revised declares base base' ∧ read ≠ [] ∧
    reading.Held levels base' read ahead [node] 0 state ∧ slot.accepts node.kind ∧
    node.span = ⟨reading.context.source, reading.nextStart base.rest, state.previousEnd⟩

/-- A node that comes without a declaration is one that may come with one. -/
theorem Yields.mono {declares : Prop} {slot : Slot} {levels : Nat} {base state : State}
    {node : Placed} (h : reading.Yields False slot levels base node state) :
    reading.Yields declares slot levels base node state := by
  obtain ⟨base', read, ahead, hr, h⟩ := h
  exact ⟨base', read, ahead, hr.mono, h⟩

/-- The state after a production that leaves some nodes without a parent. -/
def Gives (reading : Reading) (declares : Prop) (levels : Nat) (base : State)
    (nodes : List Placed) (state : State) : Prop :=
  ∃ base' read ahead, Revised declares base base' ∧
    reading.Held levels base' read ahead nodes 0 state

/-- The state after a production that yields some nodes for one kind of place. -/
def YieldsAll (reading : Reading) (declares : Prop) (slot : Slot) (levels : Nat) (base : State)
    (nodes : List Placed) (state : State) : Prop :=
  reading.Gives declares levels base nodes state ∧ ∀ node ∈ nodes, slot.accepts node.kind

section
variable {α β : Type} {parser : Parser α} {levels : Nat} {base state : State}
  {read ahead : List Token} {roots : List Placed} {braces : Nat} {slot : Slot}
  {post : β → State → Prop} {stop : State → Prop}

/-- A stop in a production within another one. -/
theorem Held.dropped {after : State} (h : reading.Held levels base read ahead roots braces state)
    (h' : reading.Dropped state after) : reading.Dropped base after where
  depth := h'.depth.trans h.depth
  openBlocks := h'.openBlocks.trans h.openBlocks
  scopes := h'.scopes.trans h.scopes
  version := h'.version.trans h.version
  read := by
    obtain ⟨more, h1, h2, h3, h4⟩ := h'.read
    rw [h.rest] at h1
    refine ⟨read ++ more, ?_, ?_, ?_, fun hf hne => ?_⟩
    · rw [h.split, h1, List.append_assoc]
    · rw [h2, h.position, List.length_append, Nat.add_assoc]
    · rw [h3, h.previousEnd, endAfter_append]
    · obtain ⟨level, h5⟩ := h4 hf hne
      have h6 := h.braces hf (by rw [h1]; simp [hne])
      refine ⟨level + braces, ?_⟩
      rw [braceLevel?_append, h6, Option.bind_some]
      have := braceLevel?_add h5 braces
      rwa [Nat.zero_add] at this
  grown := by
    obtain ⟨roots', hg⟩ := h'.grown
    exact ⟨_, h.grown.trans hg⟩
  resync := h'.resync
  reports := h'.reports
  unwinding := fun blocks hb => h.openBlocks ▸ h'.unwinding blocks hb

/-- A production may stop in every state that it holds. -/
theorem Held.drop (h : reading.Held levels base read ahead roots braces state) :
    reading.Dropped base state where
  depth := h.depth
  openBlocks := h.openBlocks
  scopes := h.scopes
  version := h.version
  read := ⟨read, h.rest ▸ h.split, h.position, h.previousEnd, fun hf hne =>
    ⟨braces, h.braces hf (h.rest ▸ hne)⟩⟩
  grown := ⟨roots, h.grown⟩
  resync := h.resync
  reports := h.reports
  unwinding := fun _ hb => by rw [h.unwinding] at hb; cases hb

/-- A production that yields a node, within another one. -/
theorem Held.yieldsAt {parser : Parser Placed} {next : Placed → Parser β}
    (h : reading.Held levels base read ahead roots braces state)
    (hp : reading.Runs parser state (reading.Yields False slot levels state)
      (reading.Dropped state))
    (hstop : ∀ after, reading.Dropped base after → stop after)
    (hn : ∀ node more rest after, more ≠ [] → ahead = more ++ rest → slot.accepts node.kind →
      node.span =
        ⟨reading.context.source, reading.nextStart ahead,
          endAfter base.previousEnd (read ++ more)⟩ →
      reading.Held levels base (read ++ more) rest (roots ++ [node]) braces after →
      reading.Runs (next node) after post stop) :
    reading.Runs (parser >>= next) state post stop := by
  refine Runs.bind (hp.conseq (fun _ _ hv => hv) fun after hd => hstop after (h.dropped hd)) ?_
  rintro node after ⟨base', more, rest, hr, hne, hheld, hslot, hspan⟩
  obtain rfl := hr.fixed.resolve_left id
  have htrans := h.trans hheld
  refine hn node more rest after hne ?_ hslot ?_ htrans
  · rw [← h.rest, hheld.split]
  · rw [hspan, h.rest, htrans.previousEnd]

/-- A production that gives some nodes, within another one. -/
theorem Held.givesAt {next : α → Parser β} {p : α → Prop}
    (h : reading.Held levels base read ahead roots braces state) (nodes : α → List Placed)
    (hp : reading.Runs parser state
      (fun value after => reading.Gives False levels state (nodes value) after ∧ p value)
      (reading.Dropped state))
    (hstop : ∀ after, reading.Dropped base after → stop after)
    (hn : ∀ value more rest after, ahead = more ++ rest → p value →
      reading.Held levels base (read ++ more) rest (roots ++ nodes value) braces after →
      reading.Runs (next value) after post stop) :
    reading.Runs (parser >>= next) state post stop := by
  refine Runs.bind (hp.conseq (fun _ _ hv => hv) fun after hd => hstop after (h.dropped hd)) ?_
  rintro value after ⟨⟨base', more, rest, hr, hheld⟩, hgood⟩
  obtain rfl := hr.fixed.resolve_left id
  exact hn value more rest after (by rw [← h.rest, hheld.split]) hgood (h.trans hheld)

/-! The same where the production around stops as the one in it does. -/

/-- A held state takes a node that is read next, with its tokens. -/
theorem Held.yields {parser : Parser Placed} {next : Placed → Parser β}
    (h : reading.Held levels base read ahead roots braces state)
    (hp : reading.Runs parser state (reading.Yields False slot levels state)
      (reading.Dropped state))
    (hn : ∀ node more rest after, more ≠ [] → ahead = more ++ rest → slot.accepts node.kind →
      node.span =
        ⟨reading.context.source, reading.nextStart ahead,
          endAfter base.previousEnd (read ++ more)⟩ →
      reading.Held levels base (read ++ more) rest (roots ++ [node]) braces after →
      reading.Runs (next node) after post (reading.Dropped base)) :
    reading.Runs (parser >>= next) state post (reading.Dropped base) :=
  h.yieldsAt hp (fun _ hd => hd) hn

/-- A held state takes a list of nodes that is read next. -/
theorem Held.gives {next : α → Parser β} {p : α → Prop}
    (h : reading.Held levels base read ahead roots braces state) (nodes : α → List Placed)
    (hp : reading.Runs parser state
      (fun value after => reading.Gives False levels state (nodes value) after ∧ p value)
      (reading.Dropped state))
    (hn : ∀ value more rest after, ahead = more ++ rest → p value →
      reading.Held levels base (read ++ more) rest (roots ++ nodes value) braces after →
      reading.Runs (next value) after post (reading.Dropped base)) :
    reading.Runs (parser >>= next) state post (reading.Dropped base) :=
  h.givesAt nodes hp (fun _ hd => hd) hn

/-- A production that yields some nodes for one kind of place, within another one. -/
theorem Held.yieldsAll {parser : Parser (List Placed)} {next : List Placed → Parser β}
    (h : reading.Held levels base read ahead roots braces state)
    (hp : reading.Runs parser state (reading.YieldsAll False slot levels state)
      (reading.Dropped state))
    (hn : ∀ nodes more rest after, ahead = more ++ rest →
      (∀ node ∈ nodes, slot.accepts node.kind) →
      reading.Held levels base (read ++ more) rest (roots ++ nodes) braces after →
      reading.Runs (next nodes) after post (reading.Dropped base)) :
    reading.Runs (parser >>= next) state post (reading.Dropped base) :=
  h.gives id hp hn

/-- A production that yields one node or none, within another one. -/
theorem Held.yieldsOption {parser : Parser (Option Placed)} {next : Option Placed → Parser β}
    (h : reading.Held levels base read ahead roots braces state)
    (hp : reading.Runs parser state
      (fun node => reading.YieldsAll False slot levels state node.toList) (reading.Dropped state))
    (hn : ∀ node more rest after, ahead = more ++ rest →
      (∀ child ∈ Option.toList node, slot.accepts child.kind) →
      reading.Held levels base (read ++ more) rest (roots ++ node.toList) braces after →
      reading.Runs (next node) after post (reading.Dropped base)) :
    reading.Runs (parser >>= next) state post (reading.Dropped base) :=
  h.gives Option.toList hp hn

end

end Reading

end OpenQasm.Grammar
