import OpenQasm.Proofs.Grammar.Outcomes
import OpenQasm.Proofs.Grammar.Silence

/-!
# What parsers come to

A parser comes to a value with a state, or to a stop that is allowed for. If no stop is allowed but
that of a node which cannot be placed, the parser reads what it should; if every stop is, whatever
it reads is as it should be. The rules for the pieces of the grammar are the same for both.
-/

namespace OpenQasm.Grammar

/-- What a parser comes to from a state: a value with a state, or a stop that is allowed for. -/
def Comes {α : Type} (allowed : Stop → Prop) (context : Context) (parser : Parser α)
    (state : State) (post : α → State → Prop) : Prop :=
  match parser context state with
  | .ok value after => post value after
  | .error failure _ => allowed failure

/-- Nodes that are still there among others. -/
def Extends (nodes others : Array Node) : Prop :=
  ∀ (index : Nat) (node : Node), nodes[index]? = some node → others[index]? = some node

/-- Every array of nodes extends itself. -/
theorem Extends.refl (nodes : Array Node) : Extends nodes nodes := fun _ _ h => h

/-- Extensions add up. -/
theorem Extends.trans {nodes others more : Array Node} (h : Extends nodes others)
    (h' : Extends others more) : Extends nodes more :=
  fun index node hn => h' index node (h index node hn)

/-- A state with more nodes and nothing reported, on the same level. -/
structure Onward (before after : State) : Prop where
  depth : after.depth = before.depth
  diagnostics : after.diagnostics = before.diagnostics
  nodes : Extends before.builder.nodes after.builder.nodes

/-- Where nothing is done the state has gone onward. -/
theorem Onward.refl (state : State) : Onward state state := ⟨rfl, rfl, .refl _⟩

/-- Two steps onward are one. -/
theorem Onward.trans {before middle after : State} (h : Onward before middle)
    (h' : Onward middle after) : Onward before after :=
  ⟨h'.depth.trans h.depth, h'.diagnostics.trans h.diagnostics, h.nodes.trans h'.nodes⟩

/-- Passing tokens over is a step onward. -/
theorem onward_pass (n : Nat) (state : State) : Onward state (State.pass n state) := by
  rw [pass_eq]
  exact ⟨rfl, rfl, .refl _⟩

/-- Behind one token stand the others. -/
theorem rest_pass {state : State} {token : Token} {rest : List Token}
    (h : state.rest = token :: rest) : (State.pass 1 state).rest = rest := by
  rw [State.pass, h]
  rfl

/-- An operator that is seen ahead is that of a token. -/
theorem exists_of_operator {α : Type} {operator? : TokenKind → Option α} {op : α}
    {tokens : List Token} (h : (tokens.head?.map Token.kind).bind operator? = some op) :
    ∃ token rest, tokens = token :: rest ∧ operator? token.kind = some op := by
  cases tokens with
  | nil => cases h
  | cons token rest => exact ⟨token, rest, rfl, h⟩

namespace Comes

variable {α β γ : Type} {allowed : Stop → Prop} {context : Context} {parser : Parser α}
  {next : α → Parser β} {state : State} {kind : TokenKind} {token : Token} {rest : List Token}

/-! ## Control -/

/-- What comes may be weakened. -/
theorem mono {p post : α → State → Prop} (h : Comes allowed context parser state p)
    (hp : ∀ value after, p value after → post value after) :
    Comes allowed context parser state post := by
  unfold Comes at *
  split at h
  · exact hp _ _ h
  · exact h

/-- An answer comes at once. -/
theorem pure {value : α} {post : α → State → Prop} (h : post value state) :
    Comes allowed context (pure value) state post := h

/-- A sequence comes through what lies between its parsers. -/
theorem bind {p : α → State → Prop} {post : β → State → Prop}
    (h : Comes allowed context parser state p)
    (hn : ∀ value after, p value after → Comes allowed context (next value) after post) :
    Comes allowed context (parser >>= next) state post := by
  unfold Comes at h
  cases hr : parser context state with
  | ok value after =>
    rw [hr] at h
    rw [Comes, bind_of_ok hr]
    exact hn value after h
  | error failure after =>
    rw [hr] at h
    rw [Comes, bind_of_error hr]
    exact h

/-- What comes of a sequence comes of its first parser with the rest behind it. -/
theorem of_bind {post : β → State → Prop} (h : Comes allowed context (parser >>= next) state post) :
    Comes allowed context parser state fun value after =>
      Comes allowed context (next value) after post := by
  unfold Comes at h ⊢
  cases hr : parser context state with
  | ok value after => rwa [bind_of_ok hr] at h
  | error failure after => rwa [bind_of_error hr] at h

/-- A first step that is known. -/
theorem of_ok {value : α} {after : State} {post : β → State → Prop}
    (h : parser context state = .ok value after)
    (hn : Comes allowed context (next value) after post) :
    Comes allowed context (parser >>= next) state post := by
  rw [Comes, bind_of_ok h]
  exact hn

/-- Sequences are read from the left. -/
theorem assoc {next : α → Parser β} {last : β → Parser γ} {post : γ → State → Prop}
    (h : Comes allowed context (parser >>= fun value => next value >>= last) state post) :
    Comes allowed context (parser >>= next >>= last) state post := by
  rwa [bind_assoc]

/-- An answer may be changed. -/
theorem map {f : α → β} {post : β → State → Prop}
    (h : Comes allowed context parser state fun value => post (f value)) :
    Comes allowed context (f <$> parser) state post := by
  rw [map_eq_pure_bind]
  exact h.bind fun _ _ hv => hv

/-- If the parser may not recover, there is nothing to catch. -/
theorem attempt {post : Option α → State → Prop} (hs : ¬allowed .recovered)
    (h : Comes allowed context parser state fun value => post (some value)) :
    Comes allowed context (attempt parser) state post := by
  unfold Comes Grammar.attempt at *
  cases hr : parser context state with
  | ok value after => rwa [hr] at h
  | error failure after =>
    rw [hr] at h
    cases failure with
    | recovered => exact absurd h hs
    | crash failure => exact h

/-! ## Loops -/

/-- More rounds than are needed do not matter. -/
theorem iterateAlong {round : α → Parser (Turn α β)} {tokens more : List Token} {value : α}
    {post : β → State → Prop} (hs : ¬allowed (.crash .stalled))
    (h : Comes allowed context (iterateAlong round tokens value) state post)
    (hle : tokens.length ≤ more.length) :
    Comes allowed context (Grammar.iterateAlong round more value) state post := by
  induction tokens generalizing more value state with
  | nil =>
    cases more with
    | nil => exact h
    | cons token more =>
      have h := of_bind (show Comes allowed context (round value >>= _) state post from h)
      show Comes allowed context (round value >>= _) state post
      refine h.bind fun turn after hturn => ?_
      cases turn with
      | done result => exact hturn
      | again value => exact absurd hturn hs
  | cons token tokens ih =>
    cases more with
    | nil => cases hle
    | cons token' more =>
      have h := of_bind (show Comes allowed context (round value >>= _) state post from h)
      show Comes allowed context (round value >>= _) state post
      refine h.bind fun turn after hturn => ?_
      cases turn with
      | done result => exact hturn
      | again value => exact ih hturn (Nat.le_of_succ_le_succ hle)

/-- One round, and then the loop from where it ends. -/
theorem iterate {round : α → Parser (Turn α β)} {value : α} {post : β → State → Prop}
    (hs : ¬allowed (.crash .stalled))
    (h : Comes allowed context (round value) state fun turn after =>
      match turn with
      | .again value => after.rest.length < state.rest.length ∧
        Comes allowed context (Grammar.iterate round value) after post
      | .done result => post result after) :
    Comes allowed context (Grammar.iterate round value) state post := by
  show Comes allowed context (Grammar.iterateAlong round state.rest value) state post
  cases hr : state.rest with
  | nil =>
    refine h.bind fun turn after hturn => ?_
    cases turn with
    | done result => exact hturn
    | again value =>
      rw [hr] at hturn
      exact absurd hturn.1 (Nat.not_lt_zero _)
  | cons token tokens =>
    refine h.bind fun turn after hturn => ?_
    cases turn with
    | done result => exact hturn
    | again value =>
      obtain ⟨hlt, hrest⟩ := hturn
      rw [hr] at hlt
      exact iterateAlong hs hrest (Nat.le_of_lt_succ hlt)

/-- A loop keeps what its rounds keep. -/
theorem loop {round : α → Parser (Turn α β)} (inv : α → State → Prop) {post : β → State → Prop}
    (hs : allowed (.crash .stalled))
    (hround : ∀ value state, inv value state →
      Comes allowed context (round value) state fun turn after =>
        match turn with
        | .again value => inv value after
        | .done result => post result after)
    {value : α} (h : inv value state) :
    Comes allowed context (Grammar.iterate round value) state post := by
  suffices hall : ∀ (tokens : List Token) value state, inv value state →
      Comes allowed context (Grammar.iterateAlong round tokens value) state post from
    hall state.rest value state h
  intro tokens
  induction tokens with
  | nil =>
    intro value state h
    refine (hround value state h).bind fun turn after hturn => ?_
    cases turn with
    | done result => exact hturn
    | again value => exact hs
  | cons token tokens ih =>
    intro value state h
    refine (hround value state h).bind fun turn after hturn => ?_
    cases turn with
    | done result => exact hturn
    | again value => exact ih value after hturn

/-! ## Tokens -/

/-- The next token is passed over. -/
theorem advance {next : Unit → Parser β} {post : β → State → Prop}
    (hr : state.rest = token :: rest)
    (hn : ∀ after, after.rest = rest → Onward state after →
      Comes allowed context (next ()) after post) :
    Comes allowed context (Grammar.advance >>= next) state post :=
  of_ok rfl (hn (State.pass 1 state) (rest_pass hr) (onward_pass 1 state))

/-- The next kind is looked at. -/
theorem peek {next : Option TokenKind → Parser β} {post : β → State → Prop}
    (hn : Comes allowed context (next (state.rest.head?.map Token.kind)) state post) :
    Comes allowed context (Grammar.peek >>= next) state post := hn

/-- So is the token at hand. -/
theorem current {next : Option Token → Parser β} {post : β → State → Prop}
    (hn : Comes allowed context (next state.rest.head?) state post) :
    Comes allowed context (Grammar.current >>= next) state post := hn

/-- A choice by the kind of the next token. -/
theorem sees {yes no : Parser β} {post : β → State → Prop}
    (hyes : ∀ token rest, state.rest = token :: rest → token.kind = kind →
      Comes allowed context yes state post)
    (hno : startsWith kind state.rest = false → Comes allowed context no state post) :
    Comes allowed context (Grammar.sees kind >>= fun seen => if seen = true then yes else no) state
      post := by
  show Comes allowed context (if startsWith kind state.rest = true then yes else no) state post
  split
  · next hs =>
    obtain ⟨token, rest, hr, hk⟩ := startsWith_iff.1 hs
    exact hyes token rest hr hk
  · next hs => exact hno (Bool.eq_false_iff.2 hs)

/-- A choice by whether the next token is of a kind, which is then read. -/
theorem accept {yes no : Parser β} {post : β → State → Prop}
    (hyes : ∀ token rest after, state.rest = token :: rest → token.kind = kind →
      after.rest = rest → Onward state after → Comes allowed context yes after post)
    (hno : startsWith kind state.rest = false → Comes allowed context no state post) :
    Comes allowed context (Grammar.accept kind >>= fun seen => if seen = true then yes else no)
      state post := by
  cases hs : startsWith kind state.rest with
  | true =>
    obtain ⟨token, rest, hr, hk⟩ := startsWith_iff.1 hs
    have hok : Grammar.accept kind context state = .ok true (State.pass 1 state) := by
      show (if startsWith kind state.rest = true then _ else _ : Parser Bool) context state = _
      rw [if_pos hs]
      rfl
    exact of_ok hok (hyes token rest _ hr hk (rest_pass hr) (onward_pass 1 state))
  | false =>
    have hok : Grammar.accept kind context state = .ok false state := by
      show (if startsWith kind state.rest = true then _ else _ : Parser Bool) context state = _
      rw [if_neg (Bool.eq_false_iff.1 hs)]
      rfl
    exact of_ok hok (hno hs)

/-- A token that has to be there. If it is not, the parser stops. -/
theorem expect {next : Token → Parser β} {post : β → State → Prop}
    (hstop : startsWith kind state.rest = false → ∀ failure, allowed failure)
    (hn : ∀ token rest after, state.rest = token :: rest → token.kind = kind →
      after.rest = rest → Onward state after → Comes allowed context (next token) after post) :
    Comes allowed context (Grammar.expect kind >>= next) state post := by
  cases hok : Grammar.expect kind context state with
  | ok token after =>
    obtain ⟨rest, hr, hk, rfl⟩ := expect_ok_iff.1 hok
    exact of_ok hok (hn token rest _ hr hk (rest_pass hr) (onward_pass 1 state))
  | error failure after =>
    rw [Comes, bind_of_error hok]
    refine hstop (Bool.eq_false_iff.2 fun hs => ?_) failure
    obtain ⟨token, rest, hr, hk⟩ := startsWith_iff.1 hs
    cases hok.symm.trans (expect_ok_iff.2 ⟨rest, hr, hk, rfl⟩)

/-- The span of the token at hand is looked at. -/
theorem currentSpan {next : Span → Parser β} {post : β → State → Prop}
    (hn : ∀ span, Comes allowed context (next span) state post) :
    Comes allowed context (Grammar.currentSpan >>= next) state post :=
  of_ok (currentSpan_eq context state) (hn _)

/-! ## Nodes -/

/-- A node that is placed comes after all others. -/
theorem place {node : NodeKind Placed} {span : Span} {post : Placed → State → Prop}
    (hf : ∀ fault, allowed (.crash (.fault fault)))
    (hn : ∀ placed after, placed.span = span → after.rest = state.rest → Onward state after →
      after.builder.nodes[placed.id.index]? = some ⟨node.map Placed.id, span⟩ →
      post placed after) :
    Comes allowed context (Grammar.place node span) state post := by
  cases hpush : state.builder.push (node.map Placed.id) span with
  | error fault =>
    have hstop : Grammar.place node span context state = .error (.crash (.fault fault)) state := by
      unfold Grammar.place
      rw [get_bind]
      simp only [hpush]
      rfl
    rw [Comes, hstop]
    exact hf fault
  | ok pushed =>
    obtain ⟨id, builder⟩ := pushed
    have hok : Grammar.place node span context state =
        .ok ⟨id, node.map Placed.id, span⟩ { state with builder } := by
      unfold Grammar.place
      rw [get_bind]
      simp only [hpush]
      rfl
    have hnodes := Builder.nodes_of_push hpush
    have hid := Builder.id_of_push hpush
    rw [Comes, hok]
    refine hn ⟨id, node.map Placed.id, span⟩ { state with builder } rfl rfl ⟨rfl, rfl, ?_⟩ ?_
    · intro index other ho
      show builder.nodes[index]? = some other
      rw [hnodes, Array.getElem?_push_lt (Array.getElem?_eq_some_iff.1 ho).1]
      exact (Array.getElem?_eq_getElem _).symm.trans ho
    · show builder.nodes[id.index]? = _
      rw [hnodes, hid, Array.getElem?_push_size]

/-- A node that began earlier is placed as any other. -/
theorem placeFrom {node : NodeKind Placed} {start : Span} {post : Placed → State → Prop}
    (hf : ∀ fault, allowed (.crash (.fault fault)))
    (hn : ∀ placed span after, after.rest = state.rest → Onward state after →
      after.builder.nodes[placed.id.index]? = some ⟨node.map Placed.id, span⟩ →
      post placed after) :
    Comes allowed context (Grammar.placeFrom start node) state post :=
  place hf fun placed after _ hrest ho hnode => hn placed _ after hrest ho hnode

/-- An identifier has to be there. If it is not, the parser stops. -/
theorem identifier {post : Placed → State → Prop} (hf : ∀ fault, allowed (.crash (.fault fault)))
    (hstop : startsWith .identifier state.rest = false → ∀ failure, allowed failure)
    (hn : ∀ token placed after, state.rest = token :: after.rest → token.kind = .identifier →
      Onward state after → after.builder.nodes[placed.id.index]? =
        some ⟨.identifier (String.ofList token.text), token.span⟩ →
      post placed after) :
    Comes allowed context Grammar.identifier state post := by
  refine expect hstop fun token rest middle hr hk hrest ho => ?_
  refine place hf fun placed after _ hrest' ho' hnode => ?_
  exact hn token placed after (by rw [hr, hrest', hrest]) hk (ho.trans ho') hnode

/-! ## Nesting -/

/-- A parser one level deeper. -/
theorem nested {post : α → State → Prop}
    (hstop : context.options.maxDepth ≤ state.depth → ∀ failure, allowed failure)
    (h : Comes allowed context parser { state with depth := state.depth + 1 } fun value after =>
      post value { after with depth := after.depth - 1 }) :
    Comes allowed context (Grammar.nested parser) state post := by
  by_cases hle : context.options.maxDepth ≤ state.depth
  · rw [Comes, nested_of_le hle, overflow_eq]
    exact hstop hle _
  · rw [Comes, nested_of_lt (Nat.lt_of_not_le hle)]
    unfold Grammar.deeper Grammar.around
    unfold Comes at h
    cases hr : parser context { state with depth := state.depth + 1 } with
    | ok value after =>
      rw [hr] at h
      exact h
    | error failure after =>
      rw [hr] at h
      exact h

end Comes

end OpenQasm.Grammar
