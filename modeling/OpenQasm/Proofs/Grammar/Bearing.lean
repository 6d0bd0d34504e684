import OpenQasm.Proofs.Grammar.Outcomes
import OpenQasm.Proofs.Grammar.Silence
import OpenQasm.Proofs.Tree.Height

/-!
# What parsers make

Every span that a parser writes down begins and ends where a token does, or at the end of the text:
spans are only copied, joined and drawn on to the end of the last token read. And the nodes that a
parser yields stand lower than the one that it places over them. The rules follow a production from
piece to piece, with a list of the nodes held so far, over which the next node may be placed.
-/

namespace OpenQasm

/-- A push leaves the comments as they are. -/
theorem Builder.comments_of_push {builder pushed : Builder} {kind : NodeKind NodeId} {span : Span}
    {id : NodeId} (h : builder.push kind span = .ok (id, pushed)) :
    pushed.comments = builder.comments := by
  obtain ⟨parents, -, -, -, rfl⟩ := exists_adopted_of_push h
  rfl

/-- All spans of a diagnostic. -/
def Diagnostic.spans (diagnostic : Diagnostic) : List Span :=
  diagnostic.span :: (diagnostic.labels.map Label.span ++ diagnostic.fix.toList.map Fix.span)

namespace Grammar

/-- A state in which the nodes are still there, and at least as much has been read. -/
structure Later (before after : State) : Prop where
  lasts : Lasts before.builder.nodes after.builder.nodes
  previousEnd : before.previousEnd ≤ after.previousEnd

/-- Where nothing is read, nothing is lost. -/
theorem Later.refl (state : State) : Later state state := ⟨.refl _, Nat.le_refl _⟩

/-- What lasts to a later state lasts to one after it. -/
theorem Later.trans {before middle after : State} (h : Later before middle)
    (h' : Later middle after) : Later before after :=
  ⟨h.lasts.trans h'.lasts, Nat.le_trans h.previousEnd h'.previousEnd⟩

/-- A parse and the offsets at which its spans may begin and end. The ends of the text are such. -/
structure Cuts where
  context : Context
  isCut : Nat → Prop
  isCut_zero : isCut 0
  isCut_end : isCut (min (Text.width context.text) maxOffset)

namespace Cuts

section
variable (cuts : Cuts)

/-- A span of the text between two cuts. -/
structure Lies (span : Span) : Prop where
  source : span.source = cuts.context.source
  start : cuts.isCut span.start
  stop : cuts.isCut span.stop
  le : span.start ≤ span.stop

/-- A state all of whose spans lie between cuts. -/
structure Sited (state : State) : Prop where
  ahead : ∀ token ∈ state.rest, cuts.Lies token.span
  row : Span.InRow cuts.context.source state.previousEnd
    (min (Text.width cuts.context.text) maxOffset) (state.rest.map Token.span)
  previousEnd : cuts.isCut state.previousEnd
  nodes : ∀ node ∈ state.builder.nodes, cuts.Lies node.span
  comments : ∀ span ∈ state.builder.comments, cuts.Lies span
  reports : ∀ diagnostic ∈ state.diagnostics.items, ∀ span ∈ diagnostic.spans, cuts.Lies span
  names : ∀ scope ∈ state.scopes, ∀ entry ∈ scope, cuts.Lies entry.2

/-- However the parser ends, the state is sited and a later one, and a value is as it should be. -/
def Goes {α : Type} (parser : Parser α) (state : State) (post : α → State → Prop) : Prop :=
  match parser cuts.context state with
  | .ok value after => cuts.Sited after ∧ Later state after ∧ post value after
  | .error _ after => cuts.Sited after ∧ Later state after

end

section
variable {cuts : Cuts} {state after : State}

/-- Two spans between cuts are joined at cuts of theirs. -/
theorem Lies.join {span other : Span} (h : cuts.Lies span) (h' : cuts.Lies other) :
    cuts.Lies (span.join other) := by
  have := h.le
  have := h'.le
  unfold Span.join
  rw [if_pos (h.source.trans h'.source.symm)]
  refine ⟨h.source, ?_, ?_, by dsimp only; omega⟩
  · dsimp only
    rw [Nat.min_def]
    split
    · exact h.start
    · exact h'.start
  · dsimp only
    rw [Nat.max_def]
    split
    · exact h'.stop
    · exact h.stop

/-- A span drawn on to the end of what has been read. -/
theorem Lies.spanFrom {span : Span} (h : cuts.Lies span) (hs : cuts.Sited state) :
    cuts.Lies ⟨cuts.context.source, span.start, max state.previousEnd span.start⟩ := by
  refine ⟨rfl, h.start, ?_, Nat.le_max_right _ _⟩
  dsimp only
  rw [Nat.max_def]
  split
  · exact h.start
  · exact hs.previousEnd

/-! ## States -/

/-- The next token, or the end of the text, is one of the cuts' spans. -/
theorem Sited.nextSpan (h : cuts.Sited state) :
    cuts.Lies (nextSpan cuts.context state.rest) := by
  cases hr : state.rest with
  | nil => exact ⟨rfl, cuts.isCut_end, cuts.isCut_end, Nat.le_refl _⟩
  | cons token rest => exact h.ahead token (hr ▸ List.mem_cons_self)

/-- A token ahead begins after what has been read. -/
theorem Sited.previousEnd_le (h : cuts.Sited state) {token : Token} (ht : token ∈ state.rest) :
    state.previousEnd ≤ token.span.start := (h.row.mem (List.mem_map_of_mem ht)).2.1

/-- Passing over tokens moves the end of what has been read to a cut. -/
theorem Sited.pass (h : cuts.Sited state) (n : Nat) :
    cuts.Sited (State.pass n state) ∧ Later state (State.pass n state) := by
  induction n generalizing state with
  | zero => exact ⟨h, .refl state⟩
  | succ n ih =>
    rw [State.pass]
    split
    · exact ⟨h, .refl state⟩
    · next token rest hr =>
      have htoken : token ∈ state.rest := hr ▸ List.mem_cons_self
      have hlies := h.ahead token htoken
      have hrow := h.row
      rw [hr] at hrow
      have hnext : cuts.Sited { state with
          rest, position := state.position + 1, previousEnd := token.span.stop } :=
        { h with
          ahead := fun other ho => h.ahead other (hr ▸ List.mem_cons_of_mem _ ho)
          row := hrow.2.2.2.2
          previousEnd := hlies.stop }
      obtain ⟨hsited, hlater⟩ := ih hnext
      have hstep : Later state { state with
          rest, position := state.position + 1, previousEnd := token.span.stop } :=
        ⟨.refl _, Nat.le_trans (h.previousEnd_le htoken) hlies.le⟩
      exact ⟨hsited, hstep.trans hlater⟩

/-- A report whose spans lie between cuts may be added. -/
theorem Sited.report (h : cuts.Sited state) {diagnostic : Diagnostic}
    (hd : ∀ span ∈ diagnostic.spans, cuts.Lies span) :
    cuts.Sited { state with diagnostics := state.diagnostics.push diagnostic } :=
  { h with
    reports := fun other ho => by
      rcases List.mem_append.1 ho with ho | ho
      · exact h.reports other ho
      · exact List.mem_singleton.1 ho ▸ hd }

/-- Nodes may be taken back. -/
theorem Sited.truncate (h : cuts.Sited state) (mark : Nat) :
    cuts.Sited { state with builder := state.builder.truncate mark } :=
  { h with
    nodes := fun node hn => by
      have hn : node ∈ state.builder.nodes.take mark := hn
      rw [Array.take_eq_extract, Array.mem_extract_iff_getElem] at hn
      obtain ⟨k, hk, rfl⟩ := hn
      exact h.nodes _ (Array.getElem_mem _) }

/-- The span that a name is looked up with stands beside it. -/
theorem mem_of_lookup {scope : Scope} {name : String} {span : Span}
    (h : scope.lookup name = some span) : (name, span) ∈ scope := by
  obtain ⟨before, more, rfl, -⟩ := List.lookup_eq_some_iff.1 h
  exact List.mem_append_right _ List.mem_cons_self

/-! ## Values -/

/-- Values with nodes that have been placed, and with spans of their own. -/
class Bearing (α : Type) where
  nodes : α → List Placed
  spans : α → List Span

instance : Bearing Placed := ⟨fun node => [node], fun _ => []⟩
instance : Bearing (List Placed) := ⟨fun nodes => nodes, fun _ => []⟩
instance : Bearing (Option Placed) := ⟨fun node => node.toList, fun _ => []⟩
instance : Bearing Span := ⟨fun _ => [], fun span => [span]⟩
instance : Bearing Token := ⟨fun _ => [], fun token => [token.span]⟩
instance : Bearing (Option Token) := ⟨fun _ => [], fun token => token.toList.map Token.span⟩

instance {α β : Type} [Bearing α] [Bearing β] : Bearing (α × β) :=
  ⟨fun value => Bearing.nodes value.1 ++ Bearing.nodes value.2,
    fun value => Bearing.spans value.1 ++ Bearing.spans value.2⟩

instance {α β : Type} [Bearing α] [Bearing β] : Bearing (Turn α β) where
  nodes
    | .again value => Bearing.nodes value
    | .done result => Bearing.nodes result
  spans
    | .again value => Bearing.spans value
    | .done result => Bearing.spans result

section
variable {α β : Type} [Bearing α] [Bearing β]

/-- All spans of the value lie between cuts, those of its nodes included. -/
structure Sound (cuts : Cuts) (value : α) : Prop where
  nodes : ∀ node ∈ Bearing.nodes value, cuts.Lies node.span
  spans : ∀ span ∈ Bearing.spans value, cuts.Lies span

/-- The value is sound, and its nodes stand low. -/
structure Borne (cuts : Cuts) (height : Nat) (value : α) (state : State) : Prop where
  sound : cuts.Sound value
  low : ∀ node ∈ Bearing.nodes value, Low state.builder.nodes height node.id

/-- Nodes stay where they are, and a higher bound holds for them as well. -/
theorem Borne.later {height height' : Nat} {value : α} (h : Borne cuts height value state)
    (hl : Later state after) (hle : height ≤ height') : Borne cuts height' value after :=
  ⟨h.sound, fun node hn => ((h.low node hn).lasts hl.lasts).mono hle⟩

/-- The nodes of a value may be held without it. -/
theorem Borne.held {height : Nat} {value : α} (h : Borne cuts height value state) :
    Borne cuts height (Bearing.nodes value) state := ⟨⟨h.sound.nodes, nofun⟩, h.low⟩

/-- Nodes that are low are so together. -/
theorem Borne.append {height : Nat} {nodes others : List Placed} (h : Borne cuts height nodes state)
    (h' : Borne cuts height others state) : Borne cuts height (nodes ++ others) state :=
  ⟨⟨fun node hm => (List.mem_append.1 hm).elim (h.sound.nodes node) (h'.sound.nodes node), nofun⟩,
    fun node hm => (List.mem_append.1 hm).elim (h.low node) (h'.low node)⟩

/-- The span of a node. -/
theorem Sound.node {node : Placed} (h : cuts.Sound node) : cuts.Lies node.span :=
  h.nodes node List.mem_cons_self

/-- A span is a value of its own. -/
theorem Sound.span {span : Span} (h : cuts.Sound span) : cuts.Lies span :=
  h.spans span List.mem_cons_self

/-- The span of a token. -/
theorem Sound.token {token : Token} (h : cuts.Sound token) : cuts.Lies token.span :=
  h.spans _ List.mem_cons_self

/-- The span of a token that is there. -/
theorem Sound.of_some {token : Token} (h : cuts.Sound (some token)) : cuts.Lies token.span :=
  h.spans _ List.mem_cons_self

end

end

/-! ## Rules for states -/

section
variable {α β : Type} {cuts : Cuts} {parser : Parser α} {next : α → Parser β} {state : State}
  {post : α → State → Prop}

namespace Goes

/-- A parser that does what another one does from a later state on. -/
theorem of_eq {other : Parser α} {middle : State}
    (heq : parser cuts.context state = other cuts.context middle) (hl : Later state middle)
    (h : cuts.Goes other middle post) : cuts.Goes parser state post := by
  unfold Goes at *
  rw [heq]
  split at h
  · exact ⟨h.1, hl.trans h.2.1, h.2.2⟩
  · exact ⟨h.1, hl.trans h.2⟩

/-- What is known at the end may be weakened there. -/
theorem mono {p : α → State → Prop} (h : cuts.Goes parser state p)
    (hp : ∀ value after, Later state after → p value after → post value after) :
    cuts.Goes parser state post := by
  unfold Goes at *
  split at h
  · exact ⟨h.1, h.2.1, hp _ _ h.2.1 h.2.2⟩
  · exact h

/-- A value by itself. -/
theorem pure {value : α} (hs : cuts.Sited state) (h : post value state) :
    cuts.Goes (pure value) state post := ⟨hs, .refl state, h⟩

/-- A stop by itself. -/
theorem throw {stop : Stop} (hs : cuts.Sited state) :
    cuts.Goes (throw stop : Parser α) state post := ⟨hs, .refl state⟩

/-- Two parsers, one after the other. -/
theorem bind {p : α → State → Prop} {post : β → State → Prop} (h : cuts.Goes parser state p)
    (hn : ∀ value after, cuts.Sited after → Later state after → p value after →
      cuts.Goes (next value) after post) :
    cuts.Goes (parser >>= next) state post := by
  unfold Goes at h
  cases hr : parser cuts.context state with
  | ok value middle =>
    rw [hr] at h
    obtain ⟨hs, hl, hv⟩ := h
    have hnext := hn value middle hs hl hv
    unfold Goes at hnext ⊢
    rw [bind_of_ok hr]
    split at hnext
    · exact ⟨hnext.1, hl.trans hnext.2.1, hnext.2.2⟩
    · exact ⟨hnext.1, hl.trans hnext.2⟩
  | error failure middle =>
    rw [hr] at h
    unfold Goes
    rw [bind_of_error hr]
    exact h

/-- The state is looked at. -/
theorem get {next : State → Parser β} {post : β → State → Prop}
    (hn : cuts.Goes (next state) state post) : cuts.Goes (get >>= next) state post := hn

/-- The context is looked at. -/
theorem read {next : Context → Parser β} {post : β → State → Prop}
    (hn : cuts.Goes (next cuts.context) state post) : cuts.Goes (read >>= next) state post := hn

/-- The next token is looked at. -/
theorem head {next : Option Token → Parser β} {post : β → State → Prop}
    (hn : cuts.Goes (next state.rest.head?) state post) : cuts.Goes (current >>= next) state post :=
  hn

/-- What is changed on the way in and out loses nothing. -/
theorem around {p : α → State → Prop} {enter leave : State → State}
    (h : cuts.Goes parser (enter state) p) (henter : Later state (enter state))
    (hleave : ∀ after, cuts.Sited after → cuts.Sited (leave after) ∧ Later after (leave after))
    (hp : ∀ value after, Later after (leave after) → p value after → post value (leave after)) :
    cuts.Goes (around enter leave parser) state post := by
  unfold Goes at h ⊢
  unfold Grammar.around
  cases hr : parser cuts.context (enter state) with
  | ok value middle =>
    rw [hr] at h
    obtain ⟨hs, hl, hv⟩ := h
    have hlast := hleave middle hs
    exact ⟨hlast.1, (henter.trans hl).trans hlast.2, hp value middle hlast.2 hv⟩
  | error failure middle =>
    rw [hr] at h
    have hlast := hleave middle h.1
    exact ⟨hlast.1, (henter.trans h.2).trans hlast.2⟩

/-- A failed attempt yields nothing. -/
theorem attempt (h : cuts.Goes parser state post) :
    cuts.Goes (attempt parser) state fun value after => ∀ result ∈ value, post result after := by
  unfold Goes at h ⊢
  unfold Grammar.attempt
  cases hr : parser cuts.context state with
  | ok value middle =>
    rw [hr] at h
    exact ⟨h.1, h.2.1, fun result hm => Option.some.inj hm ▸ h.2.2⟩
  | error failure middle =>
    rw [hr] at h
    cases failure with
    | recovered => exact ⟨h.1, h.2, nofun⟩
    | crash failure => exact h

/-- A loop keeps what its rounds keep. -/
theorem iterate {round : α → Parser (Turn α β)} (inv : α → State → Prop) {post : β → State → Prop}
    (hround : ∀ value state, cuts.Sited state → inv value state →
      cuts.Goes (round value) state fun turn after =>
        match turn with
        | .again value => inv value after
        | .done result => post result after)
    {value : α} (hs : cuts.Sited state) (h : inv value state) :
    cuts.Goes (iterate round value) state post := by
  suffices hall : ∀ (tokens : List Token) value state, cuts.Sited state → inv value state →
      cuts.Goes (iterateAlong round tokens value) state post from hall state.rest value state hs h
  intro tokens
  induction tokens with
  | nil =>
    intro value state hs h
    refine (hround value state hs h).bind fun turn after hs _ hturn => ?_
    cases turn with
    | done result => exact .pure hs hturn
    | again value => exact .throw hs
  | cons token tokens ih =>
    intro value state hs h
    refine (hround value state hs h).bind fun turn after hs _ hturn => ?_
    cases turn with
    | done result => exact .pure hs hturn
    | again value => exact ih value after hs hturn

/-- A node is placed over others. -/
theorem place {kind : NodeKind Placed} {span : Span} {height : Nat} (hs : cuts.Sited state)
    (hspan : cuts.Lies span)
    (hb : ∀ child ∈ kind.branches, Low state.builder.nodes height child.id)
    (hc : ∀ child ∈ kind.chained?, Low state.builder.nodes (height + 1) child.id) :
    cuts.Goes (place kind span) state (Borne cuts (height + 1)) := by
  unfold Goes Grammar.place
  rw [get_bind]
  cases hpush : state.builder.push (kind.map Placed.id) span with
  | error fault => exact ⟨hs, .refl state⟩
  | ok pushed =>
    obtain ⟨id, builder⟩ := pushed
    have hnodes := Builder.nodes_of_push hpush
    have hid := Builder.id_of_push hpush
    have hcomments : builder.comments = state.builder.comments := Builder.comments_of_push hpush
    have hlasts : Lasts state.builder.nodes builder.nodes := hnodes ▸ .push _ _
    refine ⟨{ hs with nodes := ?_, comments := ?_ }, ⟨hlasts, Nat.le_refl _⟩, ⟨?_, nofun⟩, ?_⟩
    · intro node hn
      have hn : node ∈ builder.nodes := hn
      rw [hnodes, Array.mem_push] at hn
      rcases hn with hn | rfl
      · exact hs.nodes node hn
      · exact hspan
    · exact fun other ho => hs.comments other (hcomments ▸ ho)
    · exact fun node hn => List.mem_singleton.1 hn ▸ hspan
    · intro node hn
      obtain rfl := List.mem_singleton.1 hn
      have hnode : builder.nodes[id.index]? = some ⟨kind.map Placed.id, span⟩ := by
        rw [hnodes, hid, Array.getElem?_push_size]
      refine .node hnode (fun child hm => ?_) fun child hm => ?_
      · dsimp only at hm
        rw [NodeKind.branches_map] at hm
        obtain ⟨placed, hplaced, rfl⟩ := List.mem_map.1 hm
        exact (hb placed hplaced).lasts hlasts
      · dsimp only at hm
        rw [NodeKind.chained?_map] at hm
        obtain ⟨placed, hplaced, rfl⟩ := Option.map_eq_some_iff.1 hm
        exact (hc placed hplaced).lasts hlasts

end Goes

/-! ## Rules for productions -/

section
variable [Bearing α] [Bearing β]

/-- The parser yields what is sound and stands so low. -/
def Bears (cuts : Cuts) (parser : Parser α) (height : Nat) : Prop :=
  ∀ state, cuts.Sited state → cuts.Goes parser state (Borne cuts height)

/-- The parser yields what is sound and stands so low, if the nodes held are sound and stand as low
as the bound says. -/
def BearsOver (cuts : Cuts) (held : List Placed) (bound : Nat) (parser : Parser α)
    (height : Nat) : Prop :=
  ∀ state, cuts.Sited state → Borne cuts bound held state →
    cuts.Goes parser state (Borne cuts height)

end

/-- The parser keeps states sited. -/
def Plain (cuts : Cuts) (parser : Parser α) : Prop :=
  ∀ state, cuts.Sited state → cuts.Goes parser state fun _ _ => True

/-- Of what a parser yields nothing need be known. -/
theorem Bears.plain [Bearing α] {height : Nat} (h : cuts.Bears parser height) :
    cuts.Plain parser := fun state hs => (h state hs).mono fun _ _ _ _ => trivial

/-- A higher bound holds as well. -/
theorem Bears.mono [Bearing α] {height height' : Nat} (h : cuts.Bears parser height)
    (hle : height ≤ height') : cuts.Bears parser height' :=
  fun state hs => (h state hs).mono fun _ after _ hv => hv.later (.refl after) hle

/-- Nothing is held at first. The bound is that of the nodes which will be. -/
theorem Bears.over [Bearing α] {height : Nat} (bound : Nat)
    (h : cuts.BearsOver [] bound parser height) : cuts.Bears parser height :=
  fun state hs => h state hs ⟨⟨nofun, nofun⟩, nofun⟩

namespace Plain

/-- A value by itself. -/
theorem pure {value : α} : cuts.Plain (pure value) := fun _ hs => .pure hs trivial

/-- A stop by itself. -/
theorem throw {stop : Stop} : cuts.Plain (throw stop : Parser α) := fun _ hs => .throw hs

/-- Two parsers, one after the other. -/
theorem bind (h : cuts.Plain parser) (hn : ∀ value, cuts.Plain (next value)) :
    cuts.Plain (parser >>= next) :=
  fun state hs => (h state hs).bind fun value after hs _ _ => hn value after hs

/-- The state is looked at. -/
theorem get {next : State → Parser β} (hn : ∀ state, cuts.Plain (next state)) :
    cuts.Plain (get >>= next) := fun state hs => hn state state hs

/-- The context is looked at. -/
theorem read {next : Context → Parser β} (hn : cuts.Plain (next cuts.context)) :
    cuts.Plain (read >>= next) := hn

/-- Either of two parsers. -/
theorem ite {c : Prop} [Decidable c] {yes no : Parser α} (hy : cuts.Plain yes)
    (hn : cuts.Plain no) : cuts.Plain (if c then yes else no) := by
  split
  · exact hy
  · exact hn

/-- A change of the state. -/
theorem modify {change : State → State}
    (h : ∀ state, cuts.Sited state → cuts.Sited (change state) ∧ Later state (change state)) :
    cuts.Plain (modify change : Parser Unit) :=
  fun state hs => ⟨(h state hs).1, (h state hs).2, trivial⟩

/-! ### Pieces that yield no nodes -/

/-- Tokens are passed over. -/
theorem passOver {n : Nat} : cuts.Plain (passOver n) := .modify fun _ hs => hs.pass n

/-- The next token is passed over. -/
theorem advance : cuts.Plain advance := .passOver

/-- A look at the next token. -/
theorem sees {kind : TokenKind} : cuts.Plain (sees kind) := .get fun _ => .pure

/-- A look at the kind of the next token. -/
theorem peek : cuts.Plain peek := .bind (.get fun _ => .pure) fun _ => .pure

/-- A token is passed over if it is of a kind. -/
theorem accept {kind : TokenKind} : cuts.Plain (accept kind) :=
  .bind .sees fun _ => .ite (.bind .advance fun _ => .pure) .pure

/-- A report whose spans lie between cuts. -/
theorem push {diagnostic : Diagnostic} (hd : ∀ span ∈ diagnostic.spans, cuts.Lies span) :
    cuts.Plain (push diagnostic) :=
  .modify fun _ hs => ⟨hs.report hd, .refl _, Nat.le_refl _⟩

/-- A report at a span between cuts. -/
theorem report {code : Code} {span : Span} {message : String} (h : cuts.Lies span) :
    cuts.Plain (report code span message) := .push fun _ ho => List.mem_singleton.1 ho ▸ h

/-- A syntax error is reported at the next token. -/
theorem reportSyntax {message : String} : cuts.Plain (reportSyntax message) := by
  refine .bind (.get fun state => .read ?_) fun suppressed => .bind .sees fun seen => ?_
  · cases state.resync with
    | none => exact .pure
    | some resync => exact .ite .pure (.ite .pure .throw)
  · refine .ite .pure fun state hs => ?_
    have hspan : cuts.Goes currentSpan state fun span _ => cuts.Lies span := by
      unfold Goes
      rw [currentSpan_eq]
      exact ⟨hs, .refl state, hs.nextSpan⟩
    exact hspan.bind fun span after hs _ hspan => Plain.report hspan after hs

/-- A syntax error, and the stop that follows. -/
theorem failSyntax {message : String} : cuts.Plain (failSyntax message : Parser α) :=
  .bind .reportSyntax fun _ => .throw

/-- A token that is not what was expected. -/
theorem unexpected {expected : String} : cuts.Plain (unexpected expected : Parser α) := by
  refine .bind (.get fun _ => .pure) fun token => ?_
  cases token <;> exact .failSyntax

/-- A feature that may be lacking is reported at a span between cuts. -/
theorem requireVersion3 {span : Span} {feature : String} (h : cuts.Lies span) :
    cuts.Plain (requireVersion3 span feature) := .get fun _ => .ite (.report h) .pure

/-- A warning and its fix are about spans between cuts. -/
theorem deprecated {span : Span} {feature : String} {fix : Option Fix} (h : cuts.Lies span)
    (hf : ∀ replacement ∈ fix, cuts.Lies replacement.span) :
    cuts.Plain (deprecated span feature fix) := by
  refine .get fun _ => .ite .pure (.push fun other ho => ?_)
  rcases List.mem_cons.1 ho with rfl | ho
  · exact h
  · obtain ⟨replacement, hm, rfl⟩ := List.mem_map.1 ho
    exact hf replacement (Option.mem_toList.1 hm)

/-- The names in scope are kept with spans between cuts. -/
theorem declare {name : Placed} (h : cuts.Lies name.span) : cuts.Plain (declare name) := by
  intro state hs
  refine .get ?_
  split
  · next identifier scope outer _ hscopes =>
    have hscope : scope ∈ state.scopes := hscopes ▸ List.mem_cons_self
    split
    · next first hfirst =>
      have hlies : cuts.Lies first :=
        hs.names scope hscope _ (mem_of_lookup hfirst)
      refine Plain.push (fun other ho => ?_) state hs
      rcases List.mem_cons.1 ho with rfl | ho
      · exact h
      · exact List.mem_singleton.1 ho ▸ hlies
    · refine ⟨{ hs with names := fun other ho entry he => ?_ }, ⟨.refl _, Nat.le_refl _⟩, trivial⟩
      rcases List.mem_cons.1 ho with rfl | ho
      · rcases List.mem_cons.1 he with rfl | he
        · exact h
        · exact hs.names scope hscope entry he
      · exact hs.names other (hscopes ▸ List.mem_cons_of_mem _ ho) entry he
  · exact .pure hs trivial

end Plain

/-! ### Pieces that yield tokens and spans -/

namespace Bears

/-- The next token comes with its span. -/
theorem current : cuts.Bears current 0 := by
  intro state hs
  refine ⟨hs, .refl state, ⟨nofun, fun span hm => ?_⟩, nofun⟩
  obtain ⟨token, ht, rfl⟩ := List.mem_map.1 hm
  exact hs.ahead token (List.mem_of_mem_head? (Option.mem_toList.1 ht))

/-- The span of the next token lies between cuts. -/
theorem currentSpan : cuts.Bears currentSpan 0 := by
  intro state hs
  unfold Goes
  rw [currentSpan_eq]
  exact ⟨hs, .refl state, ⟨nofun, fun _ hm => List.mem_singleton.1 hm ▸ hs.nextSpan⟩, nofun⟩

/-- A span is drawn on to the end of what has been read. -/
theorem spanFrom {start : Span} (h : cuts.Lies start) : cuts.Bears (spanFrom start) 0 :=
  fun _ hs => ⟨hs, .refl _, ⟨nofun, fun _ hm => List.mem_singleton.1 hm ▸ h.spanFrom hs⟩, nofun⟩

/-- A parser that always stops. -/
theorem failSyntax [Bearing α] {message : String} :
    cuts.Bears (failSyntax message : Parser α) 0 :=
  fun state hs => (Plain.reportSyntax state hs).bind fun _ _ hs _ _ => .throw hs

/-- What was not expected is read as nothing. -/
theorem unexpected [Bearing α] {expected : String} :
    cuts.Bears (unexpected expected : Parser α) 0 := by
  intro state hs
  refine (current state hs).bind fun token after hs _ _ => ?_
  cases token <;> exact failSyntax after hs

end Bears

/-! ### Pieces over the nodes held -/

section
variable [Bearing α] [Bearing β] {held : List Placed} {bound lower height : Nat}

namespace BearsOver

/-- A parser that bears by itself does so over others. -/
theorem of (h : cuts.Bears parser lower) (hle : lower ≤ height) :
    cuts.BearsOver held bound parser height := fun state hs _ => h.mono hle state hs

/-- What comes after a piece without nodes has the same nodes to build on. -/
theorem skip {α : Type} {parser : Parser α} {next : α → Parser β} (h : cuts.Plain parser)
    (hn : ∀ value, cuts.BearsOver held bound (next value) height) :
    cuts.BearsOver held bound (parser >>= next) height :=
  fun state hs hheld => (h state hs).bind fun value after hs hl _ =>
    hn value after hs (hheld.later hl (Nat.le_refl _))

/-- What comes after a value has its nodes to build on, too. -/
theorem bind (h : cuts.Bears parser lower) (hle : lower ≤ bound)
    (hn : ∀ value, cuts.Sound value →
      cuts.BearsOver (Bearing.nodes value ++ held) bound (next value) height) :
    cuts.BearsOver held bound (parser >>= next) height := by
  intro state hs hheld
  refine (h state hs).bind fun value after hs hl hv => hn value hv.sound after hs ?_
  exact (hv.later (.refl after) hle).held.append (hheld.later hl (Nat.le_refl _))

/-- A value made of nodes that are held. -/
theorem pure {value : α} (hle : bound ≤ height) (hn : ∀ node ∈ Bearing.nodes value, node ∈ held)
    (hs : Bearing.spans value = []) :
    cuts.BearsOver held bound (pure value) height := by
  intro state hsited hheld
  have hheld := hheld.later (.refl state) hle
  refine .pure hsited ⟨⟨fun node hm => hheld.sound.nodes node (hn node hm), ?_⟩,
    fun node hm => hheld.low node (hn node hm)⟩
  rw [hs]
  exact nofun

/-- A value that is there already. -/
theorem pureBind {α : Type} {value : α} {next : α → Parser β}
    (h : cuts.BearsOver held bound (next value) height) :
    cuts.BearsOver held bound (Pure.pure value >>= next) height := h

/-- Either of two parsers. -/
theorem ite {c : Prop} [Decidable c] {yes no : Parser α}
    (hy : cuts.BearsOver held bound yes height) (hn : cuts.BearsOver held bound no height) :
    cuts.BearsOver held bound (if c then yes else no) height := by
  split
  · exact hy
  · exact hn

/-- The state is looked at. -/
theorem get {next : State → Parser β}
    (hn : ∀ state, cuts.BearsOver held bound (next state) height) :
    cuts.BearsOver held bound (get >>= next) height := fun state => hn state state

/-- The context is looked at. -/
theorem read {next : Context → Parser β}
    (hn : cuts.BearsOver held bound (next cuts.context) height) :
    cuts.BearsOver held bound (read >>= next) height := hn

/-- A node that goes on no chain, over nodes that are held. -/
theorem place {kind : NodeKind Placed} {span : Span} (h : cuts.Lies span)
    (hb : ∀ child ∈ kind.branches, child ∈ held) (hc : kind.chained? = none) :
    cuts.BearsOver held bound (place kind span) (bound + 1) :=
  fun _ hs hheld => .place hs h (fun child hm => hheld.low child (hb child hm))
    fun _ hm => nomatch hc.symm.trans hm

/-- A node over some that are held stands one above them. -/
theorem placeFrom {kind : NodeKind Placed} {start : Span} (h : cuts.Lies start)
    (hb : ∀ child ∈ kind.branches, child ∈ held) (hc : kind.chained? = none) :
    cuts.BearsOver held bound (placeFrom start kind) (bound + 1) :=
  fun state hs hheld => (Bears.spanFrom h state hs).bind fun _ after hs hl hspan =>
    place hspan.sound.span hb hc after hs (hheld.later hl (Nat.le_refl _))

/-- A literal that becomes an angle stays where it is. -/
theorem retagAngle {node : Placed} (hm : node ∈ held) :
    cuts.BearsOver held bound (retagAngle node) bound := by
  intro state hs hheld
  have hnode : Borne cuts bound node state :=
    ⟨⟨fun _ h => List.mem_singleton.1 h ▸ hheld.sound.nodes node hm, nofun⟩,
      fun _ h => List.mem_singleton.1 h ▸ hheld.low node hm⟩
  unfold Grammar.retagAngle
  split
  · next literal _ =>
    have hlasts := Lasts.literal state.builder.nodes node.id.index literal.toAngle
    refine ⟨{ hs with nodes := fun other ho => ?_ }, ⟨hlasts, Nat.le_refl _⟩,
      ⟨fun _ h => List.mem_singleton.1 h ▸ hnode.sound.node, nofun⟩,
      fun _ h => List.mem_singleton.1 h ▸ (hnode.low node List.mem_cons_self).lasts hlasts⟩
    have ho : other ∈ state.builder.nodes.modify node.id.index fun other =>
        { other with kind := .literal literal.toAngle } := ho
    obtain ⟨k, hk, rfl⟩ := Array.mem_iff_getElem.1 ho
    have hlies := hs.nodes _ (Array.getElem_mem (Array.size_modify ▸ hk))
    rw [Array.getElem_modify]
    split <;> exact hlies
  · exact .pure hs hnode

/-- A loop whose rounds yield what they are given, and more that is as low. -/
theorem iterate {round : α → Parser (Turn α β)} {start : α}
    (hn : ∀ node ∈ Bearing.nodes start, node ∈ held) (hs : Bearing.spans start = [])
    (hround : ∀ value, cuts.Sound value →
      cuts.BearsOver (Bearing.nodes value) bound (round value) bound) :
    cuts.BearsOver held bound (iterate round start) bound := by
  intro state hsited hheld
  refine .iterate (Borne cuts bound) (fun value state hsited hv => ?_) hsited
    ⟨⟨fun node hm => hheld.sound.nodes node (hn node hm), ?_⟩,
      fun node hm => hheld.low node (hn node hm)⟩
  · refine (hround value hv.sound state hsited hv.held).mono fun turn after _ hturn => ?_
    cases turn with
    | again value => exact ⟨⟨hturn.sound.nodes, hturn.sound.spans⟩, hturn.low⟩
    | done result => exact ⟨⟨hturn.sound.nodes, hturn.sound.spans⟩, hturn.low⟩
  · rw [hs]
    exact nofun

end BearsOver

namespace Bears

/-- Either of two parsers. -/
theorem ite {c : Prop} [Decidable c] {yes no : Parser α} (hy : cuts.Bears yes height)
    (hn : cuts.Bears no height) : cuts.Bears (if c then yes else no) height := by
  split
  · exact hy
  · exact hn

/-- What is read where it may be missing. -/
theorem some {parser : Parser Placed} (h : cuts.Bears parser height) :
    cuts.Bears (some <$> parser) height := by
  rw [map_eq_pure_bind]
  exact .over height (.bind h (Nat.le_refl _) fun node _ =>
    .pure (Nat.le_refl _) (by simp [Bearing.nodes]) rfl)

/-- What is read where it may fail. -/
theorem attempt {parser : Parser Placed} (h : cuts.Bears parser height) :
    cuts.Bears (attempt parser) height := by
  intro state hs
  refine (h state hs).attempt.mono fun value after _ hv => ?_
  cases value with
  | none => exact ⟨⟨nofun, nofun⟩, nofun⟩
  | some node =>
    have hnode := hv node rfl
    exact ⟨⟨hnode.sound.nodes, nofun⟩, hnode.low⟩

/-- A token that is expected comes with its span. -/
theorem expect {kind : TokenKind} : cuts.Bears (expect kind) 0 := by
  refine .over 0 fun state hs hheld => ?_
  refine (Bears.current state hs).bind fun next after hs _ hnext => ?_
  cases next with
  | none => exact unexpected after hs
  | some token =>
    dsimp only
    split
    · refine (Plain.advance after hs).bind fun _ last hs _ _ => .pure hs ⟨⟨nofun, ?_⟩, nofun⟩
      exact fun _ hm => List.mem_singleton.1 hm ▸ hnext.sound.of_some
    · exact unexpected after hs

/-- An identifier has nothing below it. -/
theorem identifier : cuts.Bears identifier 1 :=
  .over 0 (.bind .expect (Nat.le_refl _) fun _ htoken => .place htoken.token nofun rfl)

/-- Items between commas stand as low as each of them. -/
theorem separated {close : Symbol} {item : Parser Placed} (h : cuts.Bears item height) :
    cuts.Bears (separated close item) height := by
  refine .over height (.iterate (by simp [Bearing.nodes]) rfl fun items _ =>
    .skip .sees fun closed => .ite ?_ ?_)
  · exact .pure (Nat.le_refl _) (by simp [Bearing.nodes]) rfl
  · refine .bind h (Nat.le_refl _) fun item _ => .skip .accept fun more => .ite ?_ ?_
    all_goals exact .pure (Nat.le_refl _) (by simp +contextual [Bearing.nodes, or_imp]) rfl

/-- Joined items stand as low as each of them. -/
theorem joined {separator : Symbol} {item : Parser Placed} (h : cuts.Bears item height) :
    cuts.Bears (joined separator item) height := by
  refine .over height (.bind h (Nat.le_refl _) fun first _ =>
    .iterate (by simp [Bearing.nodes]) rfl fun items _ => .skip .accept fun more => .ite ?_ ?_)
  · refine .bind h (Nat.le_refl _) fun item _ => .pure (Nat.le_refl _) ?_ rfl
    simp +contextual [Bearing.nodes, or_imp]
  · exact .pure (Nat.le_refl _) (by simp [Bearing.nodes]) rfl

/-- What is changed on the way in and out is neither nodes nor tokens. -/
theorem framed {enter leave : State → State}
    (henter : ∀ state, cuts.Sited state → cuts.Sited (enter state) ∧ Later state (enter state))
    (hleave : ∀ state, cuts.Sited state → cuts.Sited (leave state) ∧ Later state (leave state))
    (h : cuts.Bears parser height) : cuts.Bears (around enter leave parser) height := by
  intro state hs
  obtain ⟨hsited, hlater⟩ := henter state hs
  exact .around (h _ hsited) hlater hleave fun value after hl hv => hv.later hl (Nat.le_refl _)

/-- The count of open blocks does not matter. -/
theorem blockOpen (h : cuts.Bears parser height) : cuts.Bears (blockOpen parser) height :=
  framed (fun _ hs => ⟨{ hs with }, .refl _, Nat.le_refl _⟩)
    (fun _ hs => ⟨{ hs with }, .refl _, Nat.le_refl _⟩) h

/-- The names of a scope come and go. -/
theorem inScope (h : cuts.Bears parser height) : cuts.Bears (inScope parser) height := by
  refine framed (fun state hs => ⟨{ hs with names := ?_ }, .refl _, Nat.le_refl _⟩)
    (fun state hs => ⟨{ hs with names := ?_ }, .refl _, Nat.le_refl _⟩) h
  · intro scope hm
    rcases List.mem_cons.1 hm with rfl | hm
    · exact nofun
    · exact hs.names scope hm
  · exact fun scope hm => hs.names scope (List.mem_of_mem_drop hm)

/-- Too deep a nesting is reported at the next token. -/
theorem overflow : cuts.Bears (overflow : Parser α) height := by
  intro state hs
  unfold Goes
  rw [overflow_eq]
  show cuts.Sited (if state.unwinding.isNone then state.overflown cuts.context else state) ∧
    Later state (if state.unwinding.isNone then state.overflown cuts.context else state)
  split
  · refine ⟨{ hs with reports := fun other ho => ?_ }, .refl _, Nat.le_refl _⟩
    rcases List.mem_append.1 ho with ho | ho
    · exact hs.reports other ho
    · obtain rfl := List.mem_singleton.1 ho
      exact fun span hm => List.mem_singleton.1 hm ▸ hs.nextSpan
  · exact ⟨hs, .refl state⟩

/-- What is nested stands as low as what is not. -/
theorem nested (h : cuts.Bears parser height) : cuts.Bears (nested parser) height := by
  intro state hs
  refine .read (.get ?_)
  split
  · exact overflow state hs
  · refine framed ?_ ?_ h state hs <;> exact fun _ hs => ⟨{ hs with }, .refl _, Nat.le_refl _⟩

end Bears

end

end

end Cuts

end Grammar

end OpenQasm
