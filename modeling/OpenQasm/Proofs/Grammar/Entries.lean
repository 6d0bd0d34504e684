import OpenQasm.Proofs.Grammar.Ledger
import OpenQasm.Proofs.Grammar.Levels
import OpenQasm.Proofs.Grammar.Portions

/-!
# Entries in a ledger

What each piece of the grammar enters in a ledger: tokens passed over, reports, nodes pushed, names
declared, scopes opened and left. A node that is pushed takes from the book what has been waiting
for it.
-/

namespace OpenQasm

/-- A builder has a parent for each node, also behind a node that is pushed. -/
theorem Builder.sized_of_push {builder pushed : Builder} {kind : NodeKind NodeId} {span : Span}
    {id : NodeId} (h : builder.push kind span = .ok (id, pushed)) (hs : Grammar.Sized builder) :
    Grammar.Sized pushed := by
  obtain ⟨parents, hadopt, -, -, rfl⟩ := exists_adopted_of_push h
  simpa [Grammar.Sized, (adopt_spec hadopt).1] using hs

/-- A node that is pushed comes last among the kinds and spans. -/
theorem Builder.masked_of_push {builder pushed : Builder} {kind : NodeKind NodeId} {span : Span}
    {id : NodeId} (h : builder.push kind span = .ok (id, pushed)) :
    pushed.masked = builder.masked ++ [Node.masked ⟨kind, span⟩] := by
  rw [masked, nodes_of_push h, Array.toList_push, List.map_append]
  rfl

namespace Grammar

/-- A single id is the first one. -/
theorem idsFrom_one (first : Nat) : idsFrom first 1 = [⟨first⟩] := rfl

/-- Without a count there are no ids. -/
theorem idsFrom_zero (first : Nat) : idsFrom first 0 = [] := rfl

/-- A state adds no diagnostics to itself. -/
theorem added_self (state : State) : added state state = [] := List.drop_length

/-- Nor does one with the same diagnostics. -/
theorem added_of_eq {before after : State} (h : after.diagnostics = before.diagnostics) :
    added before after = [] := by
  rw [added, h, List.drop_length]

/-- A diagnostic that is pushed is what is added. -/
theorem added_push (state : State) (diagnostic : Diagnostic) :
    added state { state with diagnostics := state.diagnostics.push diagnostic } = [diagnostic] :=
  List.drop_left

/-- A builder of the same size has no node more. -/
theorem pushed_of_eq {before after : State} (h : after.builder.size = before.builder.size) :
    pushed before after = [] := by
  rw [pushed, h, Nat.sub_self, idsFrom_zero]

/-- A version that is settled stays so when nothing is taken back. -/
theorem Reading.VersionSettled.forward {before after : State} (h : Reading.VersionSettled before)
    (hf : Forward before after) : Reading.VersionSettled after := by
  obtain ⟨read, hread, hposition⟩ := hf.read
  cases read with
  | nil =>
    rw [List.length_nil, Nat.add_zero] at hposition
    rw [List.nil_append] at hread
    rw [VersionSettled, hposition, ← hread]
    exact h
  | cons token read =>
    rw [List.length_cons] at hposition
    exact .inl (by omega)

namespace Reading

section
variable {reading : Reading} {tree : Tree} {version : Option Version} {levels : Nat}
  {base now after : State} {book : Book}

/-- Behind tokens that are passed the state is ready, and the end of what was read no earlier. -/
theorem Ready.pass (hf : ¬reading.fair) (h : reading.Ready levels now) (n : Nat) :
    reading.Ready levels (State.pass n now) ∧
      now.previousEnd ≤ (State.pass n now).previousEnd := by
  induction n generalizing now with
  | zero => exact ⟨h, Nat.le_refl _⟩
  | succ n ih =>
    rw [State.pass]
    split
    · exact ⟨h, Nat.le_refl _⟩
    · next token rest hr =>
      have hpassed : State.pass [token].length now = { now with
          rest, position := now.position + 1, previousEnd := token.span.stop } := by
        simp [State.pass, hr]
      have hone : reading.Held levels now ([] ++ [token]) rest [] 0
          (State.pass [token].length now) :=
        (Held.refl h).pass hr fun hfair => absurd hfair hf
      rw [hpassed] at hone
      exact ⟨(ih hone.ready).1, Nat.le_trans hone.previousEnd_le.1 (ih hone.ready).2⟩

/-- Passing tokens over leads onward. -/
theorem onward_pass (hf : ¬reading.fair) (h : reading.Ready levels now) (n : Nat) :
    reading.Onward now (State.pass n now) where
  ready := fun _ hr => (hr.pass hf n).1
  settled := fun version hs =>
    ⟨by rw [pass_eq]; exact hs.version, hs.settled.forward (.pass n now)⟩
  masked := ⟨[], by rw [pass_eq, List.append_nil]⟩
  reported := ⟨[], by rw [pass_eq, List.append_nil]⟩
  previousEnd := (h.pass hf n).2

/-! ## Books -/

/-- Behind what is entered the state is ready. -/
theorem Ledger.ready_now (h : reading.Ledger tree version levels base now book) :
    reading.Ready levels now := h.onward.ready _ h.ready

/-- The version is settled there. -/
theorem Ledger.settled_now (h : reading.Ledger tree version levels base now book) :
    Settled version now := h.onward.settled _ h.settled

/-- What waits may be told in other words. -/
theorem Ledger.congr {names : List Declaration} {loose : List NodeId}
    {closed : List (List Declaration)} (h : reading.Ledger tree version levels base now book)
    (heq : (∀ root ∈ book.roots, tree.Stands root) → book.names = names ∧ book.loose = loose ∧
      book.closed.flatMap (redeclarations []) = closed.flatMap (redeclarations [])) :
    reading.Ledger tree version levels base now { book with names, loose, closed } :=
  { h with
    accounts := fun hi => by
      have ha := h.accounts hi
      obtain ⟨rfl, rfl, hclosed⟩ := heq ha.roots
      exact { ha with duplicates := hclosed ▸ ha.duplicates } }

/-- More claims allow for more reports. -/
theorem subperm_starts {reports : List Diagnostic} {claims claims' : List Span}
    (h : claims.Subperm claims') :
    (starts reports claims).Subperm (starts reports claims') := by
  obtain ⟨others, hperm, hsublist⟩ := h
  exact (List.subperm_append_left _).2 ⟨_, hperm.map _, hsublist.map _⟩

/-- What begins apart still does if there is less of it. -/
theorem apart_of_subperm {starts starts' : List Nat} (h : starts.Subperm starts') {low high : Nat}
    (ha : starts'.Nodup ∧ ∀ start ∈ starts', low ≤ start ∧ start < high) :
    starts.Nodup ∧ ∀ start ∈ starts, low ≤ start ∧ start < high := by
  obtain ⟨other, hperm, hsublist⟩ := h
  exact ⟨hperm.nodup_iff.1 (ha.1.sublist hsublist), fun start hm =>
    ha.2 start (hsublist.subset (hperm.mem_iff.2 hm))⟩

/-- Nodes need not be looked at again, and claims need not be used. -/
theorem Ledger.waive {roots : List Placed} {claims : List Span}
    (h : reading.Ledger tree version levels base now book) (hr : roots ⊆ book.roots)
    (hc : claims.Subperm book.claims) :
    reading.Ledger tree version levels base now { book with roots, claims } :=
  { h with
    extent := fun span hm => h.extent span <|
      (List.mem_append.1 hm).elim (fun hm => List.mem_append_left _ (hc.subset hm))
        (List.mem_append_right _)
    accounts := fun hi =>
      { h.accounts hi with
        roots := fun root hm => (h.accounts hi).roots root (hr hm)
        apart := fun hs => apart_of_subperm (subperm_starts hc) ((h.accounts hi).apart hs) } }

/-- A token that a claim is laid to may stand for what begins with it. -/
theorem Ledger.widen {claim span : Span} {claims : List Span}
    (h : reading.Ledger tree version levels base now book)
    (hc : book.claims.Perm (claim :: claims)) (hstart : span.start = claim.start)
    (hspan : reading.Within now span) :
    reading.Ledger tree version levels base now { book with claims := span :: claims } where
  ready := h.ready
  settled := h.settled
  onward := h.onward
  extent := fun other hm => by
    have hbefore := h.extent other
    rw [List.mem_append, hc.mem_iff] at hbefore
    rcases List.mem_append.1 hm with hm | hm
    · rcases List.mem_cons.1 hm with rfl | hm
      · exact hspan
      · exact hbefore (.inl (List.mem_cons_of_mem _ hm))
    · exact hbefore (.inr hm)
  accounts := fun hi =>
    { h.accounts hi with
      apart := fun hs => by
        have hsame : starts (added base now) (span :: claims) =
            starts (added base now) (claim :: claims) := by simp [starts, hstart]
        exact apart_of_subperm (hsame ▸ subperm_starts hc.symm.subperm) ((h.accounts hi).apart hs) }

/-- It is not seen when a literal becomes another one. -/
theorem masked_setKind {builder : Builder} {id : NodeId} {span : Span} {value value' : Literal}
    (h : builder.nodes[id.index]? = some ⟨.literal value, span⟩) :
    (builder.setKind id (.literal value')).masked = builder.masked := by
  refine List.ext_getElem? fun index => ?_
  rw [Builder.masked, Builder.masked, Builder.setKind, Array.toList_modify, List.getElem?_map,
    List.getElem?_map, List.getElem?_modify]
  split
  · next heq =>
    rw [← heq, Array.getElem?_toList, h]
    rfl
  · cases builder.nodes.toList[index]? <;> rfl

/-! ## Steps -/

/-- A step on which nothing is reported, pushed or declared. -/
theorem Accounts.still {claims : List Span} (hd : after.diagnostics = now.diagnostics)
    (hb : after.builder.size = now.builder.size) (hs : after.scopes = now.scopes)
    (hc : reading.Solid → (claims.map (·.start)).Nodup ∧
      ∀ start ∈ claims.map (·.start), now.previousEnd ≤ start ∧ start < after.previousEnd) :
    reading.Accounts tree version now after { claims } where
  roots := fun _ hr => nomatch hr
  scopes := by
    rw [hs]
    cases now.scopes <;> rfl
  duplicates := by
    rw [added_of_eq hd, pushed_of_eq hb]
    unfold State.conflicts
    cases now.scopes.head? <;> exact .refl _
  codes := fun diagnostic hm => by rw [added_of_eq hd] at hm; cases hm
  features := ⟨[], by rw [added_of_eq hd]; exact .refl _, by rw [pushed_of_eq hb]; exact .refl _,
    fun _ hp => nomatch hp⟩
  apart := fun hsolid => by
    rw [added_of_eq hd]
    exact hc hsolid

/-- A literal becomes another one. -/
theorem Ledger.relabel {id : NodeId} {span : Span} {value value' : Literal}
    (h : reading.Ledger tree version levels base now book)
    (hnode : now.builder.nodes[id.index]? = some ⟨.literal value, span⟩) :
    reading.Ledger tree version levels base
      { now with builder := now.builder.setKind id (.literal value') } book where
  ready := h.ready
  settled := h.settled
  onward := h.onward.trans
    { ready := fun _ hr => { hr with sized := by simpa [Sized, Builder.setKind] using hr.sized }
      settled := fun _ hs => ⟨hs.version, hs.settled⟩
      masked := ⟨[], by rw [masked_setKind hnode, List.append_nil]⟩
      reported := List.prefix_rfl
      previousEnd := Nat.le_refl _ }
  extent := h.extent
  accounts := fun hi => by
    rw [Into, masked_setKind hnode] at hi
    have ha := h.accounts hi
    have hsize : (now.builder.setKind id (.literal value')).size = now.builder.size :=
      Array.size_modify
    have hpushed : pushed base { now with builder := now.builder.setKind id (.literal value') } =
        pushed base now := by rw [pushed, pushed, hsize]
    exact ⟨ha.roots, ha.scopes, hpushed ▸ ha.duplicates, ha.codes, hpushed ▸ ha.features, ha.apart⟩

/-- Tokens are passed over. -/
theorem Ledger.pass (hf : ¬reading.fair) (h : reading.Ready levels now) (hs : Settled version now)
    (n : Nat) : reading.Ledger tree version levels now (State.pass n now) {} where
  ready := h
  settled := hs
  onward := onward_pass hf h n
  extent := fun _ hm => nomatch hm
  accounts := fun _ => by
    rw [pass_eq]
    exact .still rfl rfl rfl fun _ => ⟨.nil, fun _ hm => nomatch hm⟩

/-- The text of the next token lies ahead, and it has been read when the token is passed over. -/
theorem Ready.next {token : Token} {rest : List Token} (h : reading.Ready levels now)
    (hr : now.rest = token :: rest) : now.previousEnd ≤ token.span.start ∧ token ∈ reading.tokens ∧
      (State.pass 1 now).previousEnd = token.span.stop ∧
      reading.Within (State.pass 1 now) token.span := by
  have hrow := h.row
  rw [hr] at hrow
  have hstop : (State.pass 1 now).previousEnd = token.span.stop := by simp [State.pass, hr]
  exact ⟨hrow.2.1, List.mem_of_mem_drop (h.rest ▸ hr ▸ List.mem_cons_self), hstop,
    hrow.1, hrow.2.2.1, Nat.le_of_eq hstop.symm⟩

/-- A token is passed over, and a report may still be made about it. -/
theorem Ledger.token (hf : ¬reading.fair) {token : Token} {rest : List Token}
    (h : reading.Ready levels now) (hs : Settled version now) (hr : now.rest = token :: rest) :
    reading.Ledger tree version levels now (State.pass 1 now) { claims := [token.span] } where
  ready := h
  settled := hs
  onward := onward_pass hf h 1
  extent := fun span hm => by
    obtain rfl := List.mem_singleton.1 hm
    exact (h.next hr).2.2.2
  accounts := fun _ => by
    obtain ⟨hstart, hm, hstop, -⟩ := h.next hr
    refine .still (by rw [pass_eq]) (by rw [pass_eq]) (by rw [pass_eq]) fun hsolid =>
      ⟨List.pairwise_singleton _ _, fun start hmem => ?_⟩
    obtain rfl := List.mem_singleton.1 hmem
    exact ⟨hstart, hstop ▸ hsolid token hm⟩

/-- Nothing is entered at first. -/
theorem Ledger.refl (h : reading.Ready levels now) (hs : Settled version now) :
    reading.Ledger tree version levels now now {} where
  ready := h
  settled := hs
  onward := .refl now
  extent := fun _ hm => nomatch hm
  accounts := fun _ => .still rfl rfl rfl fun _ => ⟨.nil, fun _ hm => nomatch hm⟩

/-- Reports are made and names are declared. The reports use up claims. -/
theorem Ledger.unpushed {reports pending : List Diagnostic} {names : List Declaration}
    {claims : List Span} (h : reading.Ledger tree version levels base now book)
    (ho : reading.Onward now after) (ha : added now after = reports)
    (hb : after.builder.size = now.builder.size)
    (hs : after.scopes = now.scopes.modifyHead (names.foldl Scope.enter))
    (hd : reports.filter (·.code == .duplicateDeclaration) = now.conflicts names)
    (hv : ∀ diagnostic ∈ reports, diagnostic.code.isOfVersion →
      diagnostic.code = .ofVersion version)
    (hp : reports.filter (·.code.isOfVersion) = pending)
    (he : ∀ report ∈ pending, reading.Within after report.span)
    (hc : claims.Subperm book.claims)
    (hr : (starts reports claims).Subperm (book.claims.map (·.start))) :
    reading.Ledger tree version levels base after
      { book with claims, pending := book.pending ++ pending, names := book.names ++ names } where
  ready := h.ready
  settled := h.settled
  onward := h.onward.trans ho
  extent := fun span hm => by
    have hbefore := h.extent span
    simp only [List.map_append, List.mem_append] at hm hbefore
    rcases hm with hm | hm | hm
    · exact (hbefore (.inl (hc.subset hm))).onward ho
    · exact (hbefore (.inr hm)).onward ho
    · obtain ⟨report, hreport, rfl⟩ := List.mem_map.1 hm
      exact he report hreport
  accounts := fun hi => by
    have ha' := h.accounts (hi.onward ho)
    have hadded := added_trans h.onward ho
    have hpushed := pushed_trans h.onward ho
    rw [ha] at hadded
    rw [pushed_of_eq hb, List.append_nil] at hpushed
    obtain ⟨pairs, hreports, hnodes, hwithin⟩ := ha'.features
    refine
      { roots := ha'.roots
        scopes := ?_
        duplicates := ?_
        codes := fun diagnostic hm => ?_
        features := ⟨pairs, ?_, hpushed ▸ hnodes, hwithin⟩
        apart := fun hsolid => ?_ }
    · rw [hs, ha'.scopes]
      cases base.scopes with
      | nil => rfl
      | cons scope outer => simp only [List.modifyHead_cons, List.foldl_append]
    · have hperm := ha'.duplicates
      rw [hadded, hpushed, List.filter_append, hd, conflicts_append ha'.scopes]
      simp only [List.perm_iff_count, List.count_append] at hperm ⊢
      intro diagnostic
      have := hperm diagnostic
      omega
    · rw [hadded] at hm
      exact (List.mem_append.1 hm).elim (ha'.codes diagnostic) (hv diagnostic)
    · rw [hadded, List.filter_append, hp, ← List.append_assoc]
      exact hreports.append_right _
    · have hsub : (starts (added base after) claims).Subperm
          (starts (added base now) book.claims) := by
        rw [hadded, starts, List.filter_append, List.map_append, List.append_assoc]
        exact (List.subperm_append_left _).2 hr
      refine (apart_of_subperm hsub (ha'.apart hsolid)).imp_right fun hin start hm => ?_
      exact (hin start hm).imp_right fun hlt => Nat.lt_of_lt_of_le hlt ho.previousEnd

/-- A report about the text leads onward. -/
theorem onward_report {diagnostic : Diagnostic} (hc : diagnostic.code.isOfText = true) :
    reading.Onward now { now with diagnostics := now.diagnostics.push diagnostic } where
  ready := fun _ h => ((Held.refl h).reported hc).ready
  settled := fun _ hs => ⟨hs.version, hs.settled⟩
  masked := List.prefix_rfl
  reported := List.prefix_append _ _
  previousEnd := Nat.le_refl _

/-! ## Nodes -/

/-- A node that is pushed leads onward. -/
theorem onward_push {kind : NodeKind NodeId} {span : Span} {id : NodeId} {builder : Builder}
    (hpush : now.builder.push kind span = .ok (id, builder)) :
    reading.Onward now { now with builder } where
  ready := fun _ h => { h with sized := Builder.sized_of_push hpush h.sized }
  settled := fun _ hs => ⟨hs.version, hs.settled⟩
  masked := by
    rw [Builder.masked_of_push hpush]
    exact List.prefix_append _ _
  reported := List.prefix_rfl
  previousEnd := Nat.le_refl _

/-- A node of the builder stands in the tree. -/
theorem stands_of_node {node : Placed} (hi : Into tree now)
    (h : now.builder.nodes[node.id.index]? = some ⟨node.kind, node.span⟩) : tree.Stands node := by
  obtain ⟨more, hmore⟩ := hi
  have hmasked : now.builder.masked[node.id.index]? =
        some (Node.masked ⟨node.kind, node.span⟩) := by
    rw [Builder.masked, List.getElem?_map, Array.getElem?_toList, h]
    rfl
  have hget := congrArg (·[node.id.index]?) hmore
  rw [List.getElem?_append_left (List.getElem?_eq_some_iff.1 hmasked).1, hmasked,
    List.getElem?_map, Array.getElem?_toList] at hget
  exact hget.symm

/-- A node that was pushed stands in the tree. -/
theorem stands_of_push {kind : NodeKind NodeId} {span : Span} {id : NodeId} {builder : Builder}
    (hpush : now.builder.push kind span = .ok (id, builder)) (hi : Into tree { now with builder }) :
    tree.Stands ⟨id, kind, span⟩ := by
  refine stands_of_node hi ?_
  rw [Builder.nodes_of_push hpush, Builder.id_of_push hpush]
  exact Array.getElem?_push_size

/-- A node is pushed and takes from the accounts what waits for it. -/
theorem Accounts.placed {kind : NodeKind NodeId} {span : Span} {id : NodeId} {builder : Builder}
    {pending : List Diagnostic} {loose : List NodeId} {closed : List (List Declaration)}
    (ha : reading.Accounts tree version base now book) (ho : reading.Onward base now)
    (hpush : now.builder.push kind span = .ok (id, builder)) (hs : tree.Stands ⟨id, kind, span⟩)
    (hclosed : book.closed.flatMap (redeclarations []) =
      closed.flatMap (redeclarations []) ++ tree.redeclarationsAt id)
    (hfeatures : ∃ pairs : List (Diagnostic × NodeId),
      book.pending = pairs.map Prod.fst ++ pending ∧
      (book.loose ++ [id].filter (tree.isNoted version)).Perm
        (pairs.map Prod.snd ++ tree.notedParameters version id ++ loose) ∧
      ∀ pair ∈ pairs, tree.Encloses pair.2 pair.1.span) :
    reading.Accounts tree version base { now with builder }
      { book with roots := ⟨id, kind, span⟩ :: book.roots, pending, loose, closed } := by
  have hpushed : reading.Onward now { now with builder } := onward_push hpush
  have hadded := added_trans ho hpushed
  have hnodes := pushed_trans ho hpushed
  have hnone : added now { now with builder } = [] := added_of_eq rfl
  have hone : pushed now { now with builder } = [id] := by
    rw [pushed, Builder.size, Builder.size, Builder.nodes_of_push hpush, Array.size_push,
      Nat.add_sub_cancel_left, idsFrom_one, Builder.id_of_push hpush]
  rw [hnone, List.append_nil] at hadded
  rw [hone] at hnodes
  obtain ⟨pairs, hreports, hnoted, hwithin⟩ := ha.features
  obtain ⟨pairs', hsplit, hloose, hwithin'⟩ := hfeatures
  refine
    { roots := fun root hr => (List.mem_cons.1 hr).elim (fun heq => heq ▸ hs) (ha.roots root)
      scopes := ha.scopes
      duplicates := ?_
      codes := hadded ▸ ha.codes
      features := ⟨pairs ++ pairs', ?_, ?_, fun pair hm =>
        (List.mem_append.1 hm).elim (hwithin pair) (hwithin' pair)⟩
      apart := hadded ▸ ha.apart }
  · have hperm := ha.duplicates
    rw [hadded, hnodes, List.flatMap_append, List.flatMap_singleton]
    simp only [hclosed, List.perm_iff_count, List.count_append] at hperm ⊢
    intro diagnostic
    have := hperm diagnostic
    omega
  · rw [hadded, List.map_append, List.append_assoc, ← hsplit]
    exact hreports
  · rw [hnodes]
    simp only [List.perm_iff_count, List.filter_append, List.map_append, List.flatMap_append,
      List.flatMap_singleton, List.count_append] at hnoted hloose ⊢
    intro node
    have := hnoted node
    have := hloose node
    omega

/-- A node is pushed and takes from the book what waits for it. -/
theorem Ledger.placed {kind : NodeKind NodeId} {span : Span} {id : NodeId} {builder : Builder}
    {pending : List Diagnostic} {loose : List NodeId} {closed : List (List Declaration)}
    (h : reading.Ledger tree version levels base now book)
    (hpush : now.builder.push kind span = .ok (id, builder))
    (hpending : pending ⊆ book.pending)
    (hclosed : tree.Stands ⟨id, kind, span⟩ → reading.Accounts tree version base now book →
      book.closed.flatMap (redeclarations []) =
        closed.flatMap (redeclarations []) ++ tree.redeclarationsAt id)
    (hfeatures : tree.Stands ⟨id, kind, span⟩ → reading.Accounts tree version base now book →
      ∃ pairs : List (Diagnostic × NodeId), book.pending = pairs.map Prod.fst ++ pending ∧
        (book.loose ++ [id].filter (tree.isNoted version)).Perm
          (pairs.map Prod.snd ++ tree.notedParameters version id ++ loose) ∧
        ∀ pair ∈ pairs, tree.Encloses pair.2 pair.1.span) :
    reading.Ledger tree version levels base { now with builder }
      { book with roots := ⟨id, kind, span⟩ :: book.roots, pending, loose, closed } where
  ready := h.ready
  settled := h.settled
  onward := h.onward.trans (onward_push hpush)
  extent := fun span hm => (h.extent span <| (List.mem_append.1 hm).elim (List.mem_append_left _)
    fun hm => List.mem_append_right _ (List.map_subset _ hpending hm)).onward (onward_push hpush)
  accounts := fun hi => by
    have ho : reading.Onward now { now with builder } := onward_push hpush
    have hstands := stands_of_push hpush hi
    have ha := h.accounts (hi.onward ho)
    exact ha.placed h.onward hpush hstands (hclosed hstands ha) (hfeatures hstands ha)

end

end Reading

end Grammar

end OpenQasm
