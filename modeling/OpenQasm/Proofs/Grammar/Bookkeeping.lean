import OpenQasm.Proofs.Grammar.Entries

/-!
# Bookkeeping

How a ledger goes on with each piece of the grammar, told for a piece with what comes after it. What
is composed of pieces that are not kept track of leaves nothing waiting.
-/

namespace OpenQasm

/-- The reports about a feature that version 2 lacks. -/
def featureReports (version : Option Version) (span : Span) (feature : String) : List Diagnostic :=
  if Grammar.isVersion2 version then
    [{ code := .unsupportedFeature, span
       message := s!"{feature} is not available in OpenQASM {Grammar.versionText version}" }]
  else []

/-- The reports about a feature that only version 2 has. -/
def deprecationReports (version : Option Version) (span : Span) (feature : String)
    (fix : Option Fix) : List Diagnostic :=
  if Grammar.isVersion2 version then []
  else
    [{ code := .semanticWarning, span, fix
       message := s!"{feature} is deprecated in OpenQASM {Grammar.versionText version}" }]

namespace Grammar

/-- An empty book adds nothing behind another. -/
theorem Book.append_empty (book : Book) : book ++ ({} : Book) = book := by
  show Book.append book {} = book
  simp [Book.append]

/-- Nor does it before. -/
theorem Book.empty_append (book : Book) : ({} : Book) ++ book = book := by
  show Book.append {} book = book
  simp [Book.append]

/-- A book when the scope that it was kept in has been left. -/
def Book.left (book : Book) : Book :=
  { book with names := [], closed := book.closed ++ [book.names] }

/-- A book with nodes and tokens that have just been read. -/
theorem Book.append_read (book : Book) (roots : List Placed) (claims : List Span) :
    book ++ ({ roots, claims } : Book) =
      { book with roots := book.roots ++ roots, claims := book.claims ++ claims } := by
  show Book.append book _ = _
  simp [Book.append]

namespace Reading

section
variable {α β : Type} {reading : Reading} {tree : Tree} {version : Option Version} {levels : Nat}
  {base now after : State} {book : Book} {parser : Parser α} {next : α → Parser β}
  {post : β → State → Prop}

/-- A loop keeps what each of its rounds keeps. -/
theorem WhenOk.iterate {round : α → Parser (Turn α β)} (inv : α → State → Prop)
    (hround : ∀ value state, inv value state → reading.WhenOk (round value) state fun turn after =>
      match turn with
      | .again value => inv value after
      | .done result => post result after)
    {value : α} (hinv : inv value now) : reading.WhenOk (iterate round value) now post := by
  suffices h : ∀ (tokens : List Token) value state, inv value state →
      reading.WhenOk (iterateAlong round tokens value) state post from h now.rest value now hinv
  intro tokens
  induction tokens with
  | nil =>
    intro value state hinv
    refine WhenOk.bind (hround value state hinv) fun turn after _ hturn => ?_
    cases turn with
    | done result =>
      intro _ _ hok
      obtain ⟨rfl, rfl⟩ := EStateM.Result.ok.inj hok
      exact hturn
    | again value => exact fun _ _ hok => nomatch hok
  | cons token tokens ih =>
    intro value state hinv
    refine WhenOk.bind (hround value state hinv) fun turn after _ hturn => ?_
    cases turn with
    | done result =>
      intro _ _ hok
      obtain ⟨rfl, rfl⟩ := EStateM.Result.ok.inj hok
      exact hturn
    | again value => exact ih value after hturn

/-- Two things known of an answer are known together. -/
theorem WhenOk.and {p q : α → State → Prop} (h : reading.WhenOk parser now p)
    (h' : reading.WhenOk parser now q) :
    reading.WhenOk parser now fun value after => p value after ∧ q value after :=
  fun value after hok => ⟨h value after hok, h' value after hok⟩

/-- A report of an unexpected token gives no answer. -/
theorem WhenOk.unexpected {expected : String} {post : α → State → Prop} :
    reading.WhenOk (unexpected expected) now post := fun _ _ hok => absurd hok unexpected_ne_ok

/-- An answer that is given at once is known. -/
theorem WhenOk.pure {value : β} (h : post value now) : reading.WhenOk (pure value) now post :=
  fun _ _ hok => by
    obtain ⟨rfl, rfl⟩ := EStateM.Result.ok.inj hok
    exact h

/-- A change of the state is known. -/
theorem WhenOk.modify {change : State → State} {post : Unit → State → Prop}
    (h : post () (change now)) : reading.WhenOk (modify change) now post :=
  fun _ _ hok => by
    obtain ⟨rfl, rfl⟩ := EStateM.Result.ok.inj hok
    exact h

/-- What is seen of the state changes nothing. -/
theorem WhenOk.look {value : α} (hv : parser reading.context now = .ok value now)
    (hn : reading.WhenOk (next value) now post) : reading.WhenOk (parser >>= next) now post := by
  intro value after hok
  rw [bind_of_ok hv] at hok
  exact hn value after hok

/-- A parser that leaves nothing waiting. -/
def Clears (reading : Reading) (tree : Tree) (version : Option Version) (levels : Nat)
    (parser : Parser α) : Prop :=
  ∀ now, reading.Ledger tree version levels now now {} →
    reading.WhenOk parser now fun _ after => reading.Ledger tree version levels now after {}

/-- A ledger is begun anew. -/
theorem Ledger.anew (h : reading.Ledger tree version levels base now book) :
    reading.Ledger tree version levels now now {} := .refl h.ready_now h.settled_now

/-- A ledger goes on with a part that has a ledger of its own. -/
theorem Ledger.part {more : α → Book} (h : reading.Ledger tree version levels base now book)
    (hp : reading.WhenOk parser now fun value after =>
      reading.Ledger tree version levels now after (more value))
    (hn : ∀ value after, reading.Ledger tree version levels base after (book ++ more value) →
      reading.WhenOk (next value) after post) : reading.WhenOk (parser >>= next) now post :=
  WhenOk.bind hp fun value after _ hledger => hn value after (h.trans hledger)

/-- A ledger goes on with a part that leaves nothing waiting. -/
theorem Ledger.clears (h : reading.Ledger tree version levels base now book)
    (hp : reading.Clears tree version levels parser)
    (hn : ∀ value after, reading.Ledger tree version levels base after book →
      reading.WhenOk (next value) after post) : reading.WhenOk (parser >>= next) now post :=
  WhenOk.bind (hp now h.anew) fun value after _ hledger =>
    hn value after (Book.append_empty book ▸ h.trans hledger)

/-- A ledger stays as it is over a last part that leaves nothing waiting. -/
theorem Ledger.stays (h : reading.Ledger tree version levels base now book)
    (hp : reading.Clears tree version levels parser) :
    reading.WhenOk parser now fun _ after => reading.Ledger tree version levels base after book :=
  (hp now h.anew).conseq fun _ _ hledger =>
    Book.append_empty book ▸ h.trans hledger

/-! ## Tokens -/

/-- A token that is asked for is claimed. -/
theorem Ledger.expect (hf : ¬reading.fair) {kind : TokenKind} {next : Token → Parser β}
    (h : reading.Ledger tree version levels base now book)
    (hn : ∀ token after, token.kind = kind → reading.Ledger tree version levels base after
      { book with claims := token.span :: book.claims } →
      reading.WhenOk (next token) after post) : reading.WhenOk (expect kind >>= next) now post := by
  refine WhenOk.bind (p := fun token after => token.kind = kind ∧
    reading.Ledger tree version levels base after
      { book with claims := token.span :: book.claims }) (fun token after hok => ?_)
    fun token after _ hv => hn token after hv.1 hv.2
  obtain ⟨rest, hr, hk, rfl⟩ := expect_ok_iff.1 hok
  have hledger := h.trans (.token hf h.ready_now h.settled_now hr)
  rw [Book.append_read] at hledger
  exact ⟨hk, hledger.waive (fun _ hm => List.mem_append_left _ hm)
    (List.perm_append_singleton _ _).symm.subperm⟩

/-- The next token is passed over. -/
theorem Ledger.advance (hf : ¬reading.fair) {token : Token} {rest : List Token}
    {next : Unit → Parser β} (h : reading.Ledger tree version levels base now book)
    (hr : now.rest = token :: rest)
    (hn : ∀ after, reading.Ledger tree version levels base after
      { book with claims := token.span :: book.claims } →
      reading.WhenOk (next ()) after post) : reading.WhenOk (advance >>= next) now post := by
  have hledger := h.trans (.token hf h.ready_now h.settled_now hr)
  rw [Book.append_read] at hledger
  exact hn _ (hledger.waive (fun _ hm => List.mem_append_left _ hm)
    (List.perm_append_singleton _ _).symm.subperm)

/-! ## Nodes -/

/-- A node is placed and takes from the book what waits for it. -/
theorem Ledger.place {kind : NodeKind Placed} {span : Span} (pending : List Diagnostic)
    (loose : NodeId → List NodeId) (closed : List (List Declaration))
    (h : reading.Ledger tree version levels base now book) (hpending : pending ⊆ book.pending)
    (hclosed : reading.Accounts tree version base now book →
      book.closed.flatMap (redeclarations []) = closed.flatMap (redeclarations []) ++
        (tree.scopesOf (kind.map Placed.id)).flatMap (redeclarations []))
    (hfeatures : reading.Accounts tree version base now book → ∀ id,
      tree.Stands ⟨id, kind.map Placed.id, span⟩ →
      ∃ pairs : List (Diagnostic × NodeId), book.pending = pairs.map Prod.fst ++ pending ∧
        (book.loose ++ bif kind.isNoted version then [id] else []).Perm (pairs.map Prod.snd ++
          (kind.map Placed.id).parameters.filter (tree.isNoted version) ++ loose id) ∧
        ∀ pair ∈ pairs, tree.Encloses pair.2 pair.1.span) :
    reading.WhenOk (place kind span) now fun node after =>
      node.kind = kind.map Placed.id ∧ node.span = span ∧
      reading.Ledger tree version levels base after
        { book with roots := node :: book.roots, pending, loose := loose node.id, closed } := by
  intro node after hok
  obtain ⟨id, builder, hpush, rfl, rfl⟩ := exists_of_place_ok hok
  refine ⟨rfl, rfl, h.placed hpush hpending (fun hs ha => ?_) fun hs ha => ?_⟩
  · rw [Tree.redeclarationsAt, hs.elim [] tree.scopesOf fun _ => rfl]
    exact hclosed ha
  · rw [Tree.notedParameters, hs.elim [] NodeKind.parameters fun _ => rfl, List.filter_singleton,
      hs.isNoted, NodeKind.isNoted_map]
    exact hfeatures ha id hs

/-- A node that any production may place is not noted, takes no parameters and opens no scope. -/
theorem Placeable.untracked {kind : NodeKind Placed} (tree : Tree) (version : Option Version)
    (h : kind = .error ∨ Placeable (· = .inclusion) kind) :
    kind.isNoted version = false ∧ (kind.map Placed.id).parameters = [] ∧
      tree.scopesOf (kind.map Placed.id) = [] := by
  have hnothing : kind.needsVersion3 = false ∧ kind.isDeprecated = false ∧
      (kind.map Placed.id).parameters = [] ∧ tree.scopesOf (kind.map Placed.id) = [] := by
    rcases h with rfl | h
    · exact ⟨rfl, rfl, rfl, rfl⟩
    · cases kind <;> first
        | exact ⟨rfl, rfl, rfl, rfl⟩
        | cases h.1
        | cases h
  obtain ⟨hold, hnew, hparams, hscopes⟩ := hnothing
  refine ⟨?_, hparams, hscopes⟩
  rw [NodeKind.isNoted, hold, hnew, ite_self]

/-- A node that is not kept track of. -/
theorem Ledger.place_untracked {kind : NodeKind Placed} {span : Span}
    (h : reading.Ledger tree version levels base now book)
    (hk : kind = .error ∨ Placeable (· = .inclusion) kind) :
    reading.WhenOk (Grammar.place kind span) now fun node after =>
      node.kind = kind.map Placed.id ∧ node.span = span ∧
      reading.Ledger tree version levels base after
        { book with roots := node :: book.roots } := by
  obtain ⟨hnoted, hparams, hscopes⟩ := Placeable.untracked tree version hk
  refine h.place _ (fun _ => book.loose) _ (fun _ hm => hm) (fun _ => ?_) fun _ id _ =>
    ⟨[], rfl, ?_, fun _ hp => nomatch hp⟩
  · rw [hscopes]
    exact (List.append_nil _).symm
  · rw [hnoted, hparams]
    simp

/-- Reports that wait for a node: one at a place, if the node is something to be reported. -/
def Awaited {ι : Type} (version : Option Version) (kind : NodeKind ι) (pending : List Diagnostic)
    (span : Span) : Prop :=
  pending.length = (if kind.isNoted version then 1 else 0) ∧ ∀ report ∈ pending, report.span = span

/-- A node that needs version 3 awaits the report of its feature. -/
theorem awaited_feature {ι : Type} {kind : NodeKind ι} {span : Span} {feature : String}
    (h : kind.needsVersion3 = true ∧ kind.isDeprecated = false) :
    Awaited version kind ([] ++ featureReports version span feature) span := by
  unfold Awaited featureReports NodeKind.isNoted
  rw [h.1, h.2]
  split <;> simp

/-- A deprecated node awaits its warning. -/
theorem awaited_deprecation {ι : Type} {kind : NodeKind ι} {span : Span} {feature : String}
    {fix : Option Fix} (h : kind.needsVersion3 = false ∧ kind.isDeprecated = true) :
    Awaited version kind ([] ++ deprecationReports version span feature fix) span := by
  unfold Awaited deprecationReports NodeKind.isNoted
  rw [h.1, h.2]
  split <;> simp

/-- Any other node awaits nothing. -/
theorem awaited_nothing {ι : Type} {kind : NodeKind ι}
    (h : kind.needsVersion3 = false ∧ kind.isDeprecated = false) (span : Span) :
    Awaited version kind [] span := by
  unfold Awaited NodeKind.isNoted
  rw [h.1, h.2]
  simp

/-- A node takes all that waits but names. -/
theorem Ledger.closes {kind : NodeKind Placed} {span place : Span}
    (h : reading.Ledger tree version levels base now book)
    (hp : Awaited version kind book.pending place)
    (hspan : reading.Within now place → span.contains place)
    (hscopes : (∀ root ∈ book.roots, tree.Stands root) →
      book.closed.flatMap (redeclarations []) =
        (tree.scopesOf (kind.map Placed.id)).flatMap (redeclarations []))
    (hloose : (∀ root ∈ book.roots, tree.Stands root) →
      book.loose = (kind.map Placed.id).parameters.filter (tree.isNoted version)) :
    reading.WhenOk (Grammar.place kind span) now fun node after =>
      node.kind = kind.map Placed.id ∧ reading.Ledger tree version levels base after
        { roots := node :: book.roots, names := book.names } := by
  have hplace : reading.WhenOk (Grammar.place kind span) now fun node after =>
      node.kind = kind.map Placed.id ∧ node.span = span ∧
      reading.Ledger tree version levels base after
        { book with roots := node :: book.roots, pending := [], loose := [], closed := [] } := by
    refine h.place [] (fun _ => []) [] (List.nil_subset _) (fun ha => hscopes ha.roots)
      fun ha id hs => ⟨book.pending.map (·, id), ?_, ?_, ?_⟩
    · simp [Function.comp_def]
    · rw [hloose ha.roots, List.append_nil]
      refine List.perm_append_comm.trans (.append_right _ (.of_eq ?_))
      cases hnoted : kind.isNoted version with
      | true =>
        obtain ⟨report, hreport⟩ := List.length_eq_one_iff.1 (hp.1.trans (if_pos hnoted))
        simp [hreport]
      | false =>
        have hnone : book.pending = [] :=
          List.eq_nil_of_length_eq_zero (hp.1.trans (by simp [hnoted]))
        simp [hnone]
    · intro pair hm
      obtain ⟨report, hreport, rfl⟩ := List.mem_map.1 hm
      have hwithin := h.extent report.span
        (List.mem_append_right _ (List.mem_map_of_mem hreport))
      rw [hp.2 report hreport] at hwithin
      exact hs.encloses (hp.2 report hreport ▸ hspan hwithin)
  exact hplace.conseq fun node after ⟨hk, _, hledger⟩ =>
    ⟨hk, hledger.waive (fun _ hm => hm) List.nil_subperm⟩

/-- A node that ends a statement takes all that waits. -/
theorem Ledger.ends {kind : NodeKind Placed} {span place : Span}
    (h : reading.Ledger tree version levels base now book)
    (hp : Awaited version kind book.pending place)
    (hspan : reading.Within now place → span.contains place)
    (hscopes : (∀ root ∈ book.roots, tree.Stands root) →
      book.closed.flatMap (redeclarations []) =
        (tree.scopesOf (kind.map Placed.id)).flatMap (redeclarations []))
    (hloose : (∀ root ∈ book.roots, tree.Stands root) →
      book.loose = (kind.map Placed.id).parameters.filter (tree.isNoted version))
    (hnames : (∀ root ∈ book.roots, tree.Stands root) →
      book.names = ((kind.map Placed.id).declaredName?.bind tree.name?).toList) :
    reading.WhenOk (Grammar.place kind span) now fun node after =>
      reading.Ledger tree version levels base after
        { names := (Program.declared? tree node.id).toList } := by
  refine (h.closes hp hspan hscopes hloose).conseq fun node after hv => ?_
  obtain ⟨hk, hledger⟩ := hv
  have hlast : reading.Ledger tree version levels base after
      { roots := node :: book.roots, names := (Program.declared? tree node.id).toList } :=
    hledger.congr fun hstands => by
      have hroots : ∀ root ∈ book.roots, tree.Stands root := fun root hm =>
        hstands root (List.mem_cons_of_mem _ hm)
      rw [(hstands node List.mem_cons_self).declared?, hk, ← hnames hroots]
      exact ⟨rfl, rfl, rfl⟩
  exact hlast.waive (List.nil_subset _) (.refl _)

/-- A node that ends a statement reaches from where it begins to the last token read. -/
theorem Ledger.endsFrom {kind : NodeKind Placed} {start place : Span}
    (h : reading.Ledger tree version levels base now book)
    (hp : Awaited version kind book.pending place) (hstart : place.start = start.start)
    (hscopes : (∀ root ∈ book.roots, tree.Stands root) →
      book.closed.flatMap (redeclarations []) =
        (tree.scopesOf (kind.map Placed.id)).flatMap (redeclarations []))
    (hloose : (∀ root ∈ book.roots, tree.Stands root) →
      book.loose = (kind.map Placed.id).parameters.filter (tree.isNoted version))
    (hnames : (∀ root ∈ book.roots, tree.Stands root) →
      book.names = ((kind.map Placed.id).declaredName?.bind tree.name?).toList) :
    reading.WhenOk (placeFrom start kind) now fun node after =>
      reading.Ledger tree version levels base after
        { names := (Program.declared? tree node.id).toList } := by
  refine WhenOk.look rfl (h.ends hp (fun hwithin => ?_) hscopes hloose hnames)
  obtain ⟨hsource, -, hstop⟩ := hwithin
  exact Span.contains_iff.2 ⟨hsource.symm, Nat.le_of_eq hstart.symm,
    Nat.le_trans hstop (Nat.le_max_left _ _)⟩

/-- An identifier is read, and a report may still be made about it. -/
theorem Ledger.identified (hf : ¬reading.fair)
    (h : reading.Ledger tree version levels base now book) :
    reading.WhenOk identifier now fun name after => reading.Ledger tree version levels base after
      { book with roots := name :: book.roots, claims := name.span :: book.claims } := by
  refine h.expect hf fun token after _ hledger => ?_
  refine (hledger.place_untracked (.inr (show Placeable _ (.identifier _) from trivial))).conseq
    fun name after hv => ?_
  exact hv.2.1 ▸ hv.2.2

/-- An identifier is a root, and its token is claimed. -/
theorem Ledger.identifier (hf : ¬reading.fair) {next : Placed → Parser β}
    (h : reading.Ledger tree version levels base now book)
    (hn : ∀ name after, reading.Ledger tree version levels base after
      { book with roots := name :: book.roots, claims := name.span :: book.claims } →
      reading.WhenOk (next name) after post) :
    reading.WhenOk (Grammar.identifier >>= next) now post :=
  WhenOk.bind (h.identified hf) fun name after _ hledger => hn name after hledger

/-! ## Names and versions -/

/-- A change of the scopes leads onward. -/
theorem onward_scopes (scopes : List Scope) : reading.Onward now { now with scopes } where
  ready := fun _ h => { h with }
  settled := fun _ hs => ⟨hs.version, hs.settled⟩
  masked := List.prefix_rfl
  reported := List.prefix_rfl
  previousEnd := Nat.le_refl _

/-- So does a change of the number of open braces. -/
theorem onward_openBlocks (openBlocks : Nat) : reading.Onward now { now with openBlocks } where
  ready := fun _ h => { h with }
  settled := fun _ hs => ⟨hs.version, hs.settled⟩
  masked := List.prefix_rfl
  reported := List.prefix_rfl
  previousEnd := Nat.le_refl _

/-- No names, no conflicts. -/
theorem conflicts_nil (state : State) : state.conflicts [] = [] := by
  rw [State.conflicts]
  cases state.scopes.head? <;> rfl

/-- A single name conflicts with the one that its scope has. -/
theorem conflicts_singleton (state : State) (name : String) (span : Span) :
    state.conflicts [(name, span)] =
      ((state.scopes.head?.bind (·.lookup name)).map (redeclared name span)).toList := by
  rw [State.conflicts]
  cases state.scopes.head? with
  | none => rfl
  | some scope => simp [Scope.conflicts]

/-- A name is declared, for which it has been claimed: whether it is new or not, what is reported is
what the scope calls for. -/
theorem Ledger.entered {reports : List Diagnostic} {name : String} {span : Span}
    {claims : List Span} (h : reading.Ledger tree version levels base now book)
    (hc : book.claims.Perm (span :: claims)) (ho : reading.Onward now after)
    (ha : added now after = reports) (hb : after.builder.size = now.builder.size)
    (hs : after.scopes = now.scopes.modifyHead (Scope.enter · (name, span)))
    (hr : reports = ((now.scopes.head?.bind (·.lookup name)).map (redeclared name span)).toList) :
    reading.Ledger tree version levels base after
      { book with claims, names := book.names ++ [(name, span)] } := by
  have hsub : claims.Subperm book.claims :=
    (List.sublist_cons_self _ _).subperm.trans hc.symm.subperm
  have hledger : reading.Ledger tree version levels base after
      { book with claims, pending := book.pending ++ []
                  names := book.names ++ [(name, span)] } := by
    refine h.unpushed ho ha hb hs ?_ ?_ ?_ (fun _ hm => nomatch hm) hsub ?_
    all_goals rw [hr]
    · rw [conflicts_singleton]
      cases now.scopes.head?.bind (·.lookup name) <;> rfl
    · intro diagnostic hm
      obtain ⟨first, -, rfl⟩ := Option.map_eq_some_iff.1 (Option.mem_toList.1 hm)
      exact nofun
    · cases now.scopes.head?.bind (·.lookup name) <;> rfl
    · cases now.scopes.head?.bind (·.lookup name) with
      | none => exact subperm_starts hsub
      | some first => exact (hc.symm.map _).subperm
  rwa [List.append_nil] at hledger

/-- A name is declared. -/
theorem Ledger.declared {name : Placed} {claims : List Span}
    (h : reading.Ledger tree version levels base now book)
    (hc : book.claims.Perm (name.span :: claims)) :
    reading.WhenOk (declare name) now fun _ after =>
      reading.Ledger tree version levels base after
        { book with claims, names := book.names ++ name.declaration?.toList } := by
  unfold Grammar.declare Placed.declaration?
  refine WhenOk.look rfl ?_
  cases hk : name.kind with
  | identifier text =>
    cases hscopes : now.scopes with
    | nil => exact .pure (h.entered hc (.refl now) (added_self now) rfl (by rw [hscopes]; rfl)
        (by rw [hscopes]; rfl))
    | cons scope outer =>
      dsimp only
      split
      · next first hl =>
        have hsame : scope.enter (text, name.span) = scope := by rw [Scope.enter, hl]; rfl
        refine WhenOk.modify (h.entered hc (onward_report rfl) (added_push now _) rfl ?_ ?_)
        · rw [hscopes, List.modifyHead_cons, hsame]
        · simp [hscopes, hl]
      · next hl =>
        have hnew : scope.enter (text, name.span) = (text, name.span) :: scope := by
          rw [Scope.enter, hl]; rfl
        refine WhenOk.modify (h.entered hc (onward_scopes _) (added_of_eq rfl) rfl ?_ ?_)
        · rw [hscopes, List.modifyHead_cons, hnew]
        · simp [hscopes, hl]
  | _ =>
    refine .pure ?_
    rw [Option.toList_none, List.append_nil]
    exact h.waive (fun _ hm => hm) ((List.sublist_cons_self _ _).subperm.trans hc.symm.subperm)

/-- A name that is declared is entered among the names. -/
theorem Ledger.declare {name : Placed} {claims : List Span} {next : Unit → Parser β}
    (h : reading.Ledger tree version levels base now book)
    (hc : book.claims.Perm (name.span :: claims))
    (hn : ∀ after, reading.Ledger tree version levels base after
      { book with claims, names := book.names ++ name.declaration?.toList } →
      reading.WhenOk (next ()) after post) :
    reading.WhenOk (declare name >>= next) now post :=
  WhenOk.bind (h.declared hc) fun _ after _ hledger => hn after hledger

/-- Names are declared one after the other. -/
theorem Ledger.declareAll {names : List Placed} {claims : List Span} {next : Unit → Parser β}
    (h : reading.Ledger tree version levels base now book)
    (hc : book.claims.Perm (names.map Placed.span ++ claims))
    (hn : ∀ after, reading.Ledger tree version levels base after
      { book with claims, names := book.names ++ names.filterMap Placed.declaration? } →
      reading.WhenOk (next ()) after post) :
    reading.WhenOk (names.forM Grammar.declare >>= next) now post := by
  refine WhenOk.bind (p := fun _ after => reading.Ledger tree version levels base after
    { book with claims, names := book.names ++ names.filterMap Placed.declaration? }) ?_
    fun _ after _ hledger => hn after hledger
  clear hn
  induction names generalizing now book with
  | nil =>
    refine .pure ?_
    rw [List.filterMap_nil, List.append_nil]
    exact h.waive (fun _ hm => hm) hc.symm.subperm
  | cons name names ih =>
    show reading.WhenOk (Grammar.declare name >>= fun _ => names.forM Grammar.declare) now _
    refine h.declare hc fun middle hledger => (ih hledger (.refl _)).conseq fun _ after hlast => ?_
    have hnames : name.declaration?.toList ++ names.filterMap Placed.declaration? =
        (name :: names).filterMap Placed.declaration? := by
      cases hname : name.declaration? <;> simp [hname]
    rw [← hnames, ← List.append_assoc]
    exact hlast

/-- A report about the version is made, for which a token has been claimed. -/
theorem Ledger.noted {report : Diagnostic} {claim : Span} {claims : List Span}
    (h : reading.Ledger tree version levels base now book)
    (hc : book.claims.Perm (claim :: claims)) (hcode : report.code = .ofVersion version)
    (hstart : report.span.start = claim.start)
    (hspan : reading.Within now report.span) :
    reading.Ledger tree version levels base
      { now with diagnostics := now.diagnostics.push report }
      { book with claims, pending := book.pending ++ [report] } := by
  have hkind : report.code.isOfText = true ∧ report.code.isOfVersion = true ∧
      report.code.isNoted = true ∧ (report.code == .duplicateDeclaration) = false := by
    rw [hcode, Code.ofVersion]
    split <;> exact ⟨rfl, rfl, rfl, rfl⟩
  obtain ⟨htext, hversion, hnoted, hother⟩ := hkind
  have hledger : reading.Ledger tree version levels base
      { now with diagnostics := now.diagnostics.push report }
      { book with claims, pending := book.pending ++ [report], names := book.names ++ [] } := by
    refine h.unpushed (onward_report htext) (added_push now report) rfl
      (by cases now.scopes <;> rfl) ?_ (fun other hm _ => ?_) ?_ (fun other hm => ?_)
      ((List.sublist_cons_self _ _).subperm.trans hc.symm.subperm) ?_
    · rw [List.filter_cons_of_neg (by simp [hother]), State.conflicts]
      cases now.scopes.head? <;> rfl
    · rw [List.mem_singleton.1 hm, hcode]
    · simp [hversion]
    · rw [List.mem_singleton.1 hm]
      exact hspan
    · have hstarts : starts [report] claims = (claim :: claims).map (·.start) := by
        simp [starts, hnoted, hstart]
      exact hstarts ▸ (hc.symm.map _).subperm
  rwa [List.append_nil] at hledger

/-- A claim that is not used is waived. -/
theorem Ledger.unnoted {claim : Span} {claims : List Span}
    (h : reading.Ledger tree version levels base now book)
    (hc : book.claims.Perm (claim :: claims)) :
    reading.Ledger tree version levels base now
      { book with claims, pending := book.pending ++ [] } := by
  rw [List.append_nil]
  exact h.waive (fun _ hm => hm) ((List.sublist_cons_self _ _).subperm.trans hc.symm.subperm)

/-- A feature that version 2 lacks. -/
theorem Ledger.requireVersion3 {span claim : Span} {feature : String} {claims : List Span}
    {next : Unit → Parser β} (h : reading.Ledger tree version levels base now book)
    (hc : book.claims.Perm (claim :: claims)) (hstart : span.start = claim.start)
    (hspan : reading.Within now span)
    (hn : ∀ after, reading.Ledger tree version levels base after
      { book with claims, pending := book.pending ++ featureReports version span feature } →
      reading.WhenOk (next ()) after post) :
    reading.WhenOk (requireVersion3 span feature >>= next) now post := by
  refine WhenOk.bind (p := fun _ after => reading.Ledger tree version levels base after
    { book with claims, pending := book.pending ++ featureReports version span feature }) ?_
    fun _ after _ hledger => hn after hledger
  unfold Grammar.requireVersion3 featureReports
  refine WhenOk.look rfl ?_
  rw [h.settled_now.version]
  by_cases hv : isVersion2 version = true
  · rw [if_pos hv, if_pos hv]
    exact WhenOk.modify (h.noted hc (by rw [Code.ofVersion, if_pos hv]) hstart hspan)
  · rw [if_neg hv, if_neg hv]
    exact WhenOk.pure (h.unnoted hc)

/-- A feature that version 2 lacks, reported where it begins. -/
theorem Ledger.requireAt {start : Span} {feature : String} {claims : List Span}
    {next : Unit → Parser β} (h : reading.Ledger tree version levels base now book)
    (hc : book.claims.Perm (start :: claims))
    (hn : ∀ after, reading.Ledger tree version levels base after
      { book with claims, pending := book.pending ++ featureReports version start feature } →
      reading.WhenOk (next ()) after post) :
    reading.WhenOk (Grammar.requireVersion3 start feature >>= next) now post :=
  h.requireVersion3 hc rfl
    (h.extent start (List.mem_append_left _ (hc.mem_iff.2 List.mem_cons_self))) hn

/-- A feature that version 2 lacks, reported with all that has been read of it. -/
theorem Ledger.requireFrom {start : Span} {feature : String} {claims : List Span}
    {next : Span → Unit → Parser β} (h : reading.Ledger tree version levels base now book)
    (hc : book.claims.Perm (start :: claims))
    (hn : ∀ span after, reading.Ledger tree version levels base after
      { book with claims, pending := book.pending ++ featureReports version span feature } →
      reading.WhenOk (next span ()) after post) :
    reading.WhenOk
      (spanFrom start >>= fun span => Grammar.requireVersion3 span feature >>= next span)
        now post := by
  obtain ⟨-, hle, hstop⟩ :=
    h.extent start (List.mem_append_left _ (hc.mem_iff.2 List.mem_cons_self))
  refine WhenOk.look rfl (h.requireVersion3 hc ?_ ?_ (hn _))
  · rfl
  · exact ⟨rfl, Nat.le_max_right _ _, Nat.max_le.2 ⟨Nat.le_refl _, Nat.le_trans hle hstop⟩⟩

/-- A feature that only version 2 has, reported where it begins. -/
theorem Ledger.deprecated {start : Span} {feature : String} {fix : Option Fix}
    {claims : List Span} {next : Unit → Parser β}
    (h : reading.Ledger tree version levels base now book)
    (hc : book.claims.Perm (start :: claims))
    (hn : ∀ after, reading.Ledger tree version levels base after
      { book with
        claims, pending := book.pending ++ deprecationReports version start feature fix } →
      reading.WhenOk (next ()) after post) :
    reading.WhenOk (deprecated start feature fix >>= next) now post := by
  refine WhenOk.bind (p := fun _ after => reading.Ledger tree version levels base after
    { book with claims, pending := book.pending ++ deprecationReports version start feature fix })
    ?_ fun _ after _ hledger => hn after hledger
  unfold Grammar.deprecated deprecationReports
  refine WhenOk.look rfl ?_
  rw [h.settled_now.version]
  by_cases hv : isVersion2 version = true
  · rw [if_pos hv, if_pos hv]
    exact WhenOk.pure (h.unnoted hc)
  · rw [if_neg hv, if_neg hv]
    exact WhenOk.modify (h.noted hc (by rw [Code.ofVersion, if_neg hv]) rfl
      (h.extent start (List.mem_append_left _ (hc.mem_iff.2 List.mem_cons_self))))

/-! ## Scopes and levels -/

/-- The ledger of a scope of its own, when the scope has been left. -/
theorem Ledger.leaveScope (h : reading.Ledger tree version levels (ownScope now) after book)
    (hs : Settled version now) (hr : reading.Ready levels now) :
    reading.Ledger tree version levels now { after with scopes := after.scopes.drop 1 }
      book.left where
  ready := hr
  settled := hs
  onward := (onward_scopes ([] :: now.scopes)).trans (h.onward.trans (onward_scopes _))
  extent := h.extent
  accounts := fun hi => by
    have ha := h.accounts hi
    have hscopes : after.scopes = book.names.foldl Scope.enter [] :: now.scopes := ha.scopes
    have hnew : (ownScope now).conflicts book.names = redeclarations [] book.names :=
      Scope.conflicts_eq (fun _ => rfl) _
    refine { ha with scopes := ?_, duplicates := ha.duplicates.trans ?_ }
    · show after.scopes.drop 1 = now.scopes.modifyHead fun scope => scope
      rw [hscopes]
      cases now.scopes <;> rfl
    · show List.Perm _
        (now.conflicts [] ++ (book.closed ++ [book.names]).flatMap (redeclarations []) ++ _)
      rw [hnew, conflicts_nil, List.nil_append, List.flatMap_append, List.flatMap_singleton]
      exact .append_right _ List.perm_append_comm

/-- A part in a scope of its own. -/
theorem Ledger.inScope (h : reading.Ledger tree version levels now now {}) (more : α → Book)
    (hp : reading.Ledger tree version levels (ownScope now) (ownScope now) {} →
      reading.WhenOk parser (ownScope now) fun value after =>
        reading.Ledger tree version levels (ownScope now) after (more value)) :
    reading.WhenOk (inScope parser) now fun value after =>
      reading.Ledger tree version levels now after (more value).left := by
  have hopen : reading.Onward now (ownScope now) := onward_scopes _
  have hstart : reading.Ledger tree version levels (ownScope now) (ownScope now) {} :=
    .refl (hopen.ready _ h.ready) (hopen.settled _ h.settled)
  exact WhenOk.around ((hp hstart).conseq fun _ _ hledger => hledger.leaveScope h.settled h.ready)

/-- A part one level deeper. -/
theorem Ledger.nested {more : α → Book} (h : reading.Ledger tree version (levels + 1) now now {})
    (hp : reading.Ledger tree version levels (Reading.inner now) (Reading.inner now) {} →
      reading.WhenOk parser (Reading.inner now) fun value after =>
        reading.Ledger tree version levels (Reading.inner now) after (more value)) :
    reading.WhenOk (nested parser) now fun value after =>
      reading.Ledger tree version (levels + 1) now after (more value) := by
  refine WhenOk.nested fun hlt => ?_
  have hstart : reading.Ledger tree version levels (Reading.inner now) (Reading.inner now) {} :=
    .refl (h.ready.inner hlt) ⟨h.settled.version, h.settled.settled⟩
  refine (hp hstart).conseq fun value after hledger => ?_
  have hdepth := hledger.ready_now.levels
  have hlevels := h.ready.levels
  have honward : reading.Onward now { after with depth := after.depth - 1 } :=
    { ready := fun levels' hr => by
        have hbase := hr.levels
        refine { hledger.ready_now with depth := ?_, levels := ?_ }
        · show after.depth - 1 ≤ reading.context.options.maxDepth
          omega
        · show after.depth - 1 + levels' = reading.context.options.maxDepth + 1
          omega
      settled := fun version' hs => by
        have hafter := hledger.onward.settled version' ⟨hs.version, hs.settled⟩
        exact ⟨hafter.version, hafter.settled⟩
      masked := hledger.onward.masked
      reported := hledger.onward.reported
      previousEnd := hledger.onward.previousEnd }
  refine ⟨h.ready, h.settled, honward, hledger.extent, fun hi => ?_⟩
  have ha := hledger.accounts hi
  exact ⟨ha.roots, ha.scopes, ha.duplicates, ha.codes, ha.features, ha.apart⟩

/-- A part within an open block. -/
theorem Ledger.blockOpen {more : α → Book} (h : reading.Ledger tree version levels now now {})
    (hp : ∀ opened : State, reading.Ledger tree version levels opened opened {} →
      reading.WhenOk parser opened fun value after =>
        reading.Ledger tree version levels opened after (more value)) :
    reading.WhenOk (blockOpen parser) now fun value after =>
      reading.Ledger tree version levels now after (more value) := by
  let opened : State := { now with openBlocks := now.openBlocks + 1 }
  have hopen : reading.Onward now opened := onward_openBlocks _
  have hstart : reading.Ledger tree version levels opened opened {} :=
    .refl (hopen.ready _ h.ready) (hopen.settled _ h.settled)
  refine WhenOk.around ((hp opened hstart).conseq fun value after hledger => ?_)
  refine ⟨h.ready, h.settled, hopen.trans (hledger.onward.trans (onward_openBlocks _)),
    hledger.extent, fun hi => ?_⟩
  have ha := hledger.accounts hi
  exact ⟨ha.roots, ha.scopes, ha.duplicates, ha.codes, ha.features, ha.apart⟩

/-! ## Parts that leave nothing waiting -/

namespace Clears

variable {first : Parser α} {rest : α → Parser β}

/-- An answer leaves nothing waiting. -/
theorem pure {value : α} : reading.Clears tree version levels (Pure.pure value) :=
  fun _ h => WhenOk.pure h

/-- Two parts in sequence leave nothing waiting if neither does. -/
theorem bind (h : reading.Clears tree version levels first)
    (hn : ∀ value, reading.Clears tree version levels (rest value)) :
    reading.Clears tree version levels (first >>= rest) := fun _ hstart =>
  hstart.clears h fun value _ hledger => hledger.stays (hn value)

/-- Nor does a part whose answer is changed. -/
theorem map {f : α → β} (h : reading.Clears tree version levels first) :
    reading.Clears tree version levels (f <$> first) := by
  rw [map_eq_pure_bind]
  exact h.bind fun value => .pure

/-- A choice leaves nothing waiting if neither side does. -/
theorem ite {c : Prop} [Decidable c] {yes no : Parser α}
    (hy : reading.Clears tree version levels yes) (hn : reading.Clears tree version levels no) :
    reading.Clears tree version levels (if c then yes else no) := by
  split
  · exact hy
  · exact hn

/-- Nor does a loop if its rounds do not. -/
theorem iterate {round : α → Parser (Turn α β)}
    (h : ∀ value, reading.Clears tree version levels (round value)) (value : α) :
    reading.Clears tree version levels (Grammar.iterate round value) := fun now hstart =>
  WhenOk.iterate (fun _ state => reading.Ledger tree version levels now state {})
    (fun value _ hledger => (hledger.stays (h value)).conseq fun turn _ hlast => by
      cases turn <;> exact hlast)
    hstart

/-- Nor does such a part within a brace. -/
theorem blockOpen (h : reading.Clears tree version levels parser) :
    reading.Clears tree version levels (Grammar.blockOpen parser) := fun _ hstart =>
  hstart.blockOpen fun opened => h opened

/-- Or one level further in. -/
theorem nested (h : reading.Clears tree version levels parser) :
    reading.Clears tree version (levels + 1) (Grammar.nested parser) := fun _ hstart =>
  hstart.nested (h _)

/-- A syntax error leaves nothing waiting. -/
theorem failSyntax {message : String} :
    reading.Clears tree version levels (Grammar.failSyntax message : Parser α) :=
  fun _ _ _ _ hok => absurd hok failSyntax_ne_ok

/-- Nor do tokens that are passed over. -/
theorem passOver (hf : ¬reading.fair) {n : Nat} :
    reading.Clears tree version levels (Grammar.passOver n) :=
  fun _ h => WhenOk.modify (.pass hf h.ready h.settled n)

/-- A report that is neither about names nor about a version. -/
theorem report {code : Code} {span : Span} {message : String} (ht : code.isOfText = true)
    (hn : code.isNoted = false) :
    reading.Clears tree version levels (Grammar.report code span message) := by
  intro now h
  have hother : (code == .duplicateDeclaration) = false ∧ code.isOfVersion = false := by
    rwa [Code.isNoted, Bool.or_eq_false_iff] at hn
  have hledger : reading.Ledger tree version levels now
      { now with diagnostics := now.diagnostics.push { code, span, message } }
      { claims := [], pending := [] ++ [], names := [] ++ [] } := by
    refine h.unpushed (onward_report ht) (added_push now _) rfl
      (by cases now.scopes <;> rfl) ?_ (fun other hm hv => ?_) ?_ (fun _ hm => nomatch hm)
      (.refl _) ?_
    · simp [hother, conflicts_nil]
    · rw [List.mem_singleton.1 hm] at hv
      exact absurd hv (by simp [hother])
    · simp [hother]
    · simp [starts, hn]
  exact WhenOk.modify hledger

/-- A node that any production may place leaves nothing waiting. -/
theorem place {kind : NodeKind Placed} {span : Span}
    (hk : kind = .error ∨ Placeable (· = .inclusion) kind) :
    reading.Clears tree version levels (Grammar.place kind span) := fun _ h =>
  (h.place_untracked hk).conseq fun _ _ hv =>
    hv.2.2.waive (List.nil_subset _) (.refl _)

/-- Nor does one that began earlier. -/
theorem placeFrom {start : Span} {kind : NodeKind Placed}
    (hk : Placeable (· = .inclusion) kind) :
    reading.Clears tree version levels (Grammar.placeFrom start kind) := fun now h =>
  WhenOk.look rfl (place (.inr hk) now h)

/-- Nor does the report that a number cannot be read. -/
theorem misread {span : Span} {message : String} :
    reading.Clears tree version levels (Grammar.misread span message) :=
  .bind (.report rfl rfl) fun _ => .place (.inl rfl)

end Clears

variable {inner : Level}

/-- What is composed of pieces that are not kept track of leaves nothing waiting. -/
theorem composed_clears (hf : ¬reading.fair) {parser : Level → Parser α}
    (hc : Composed (· = .inclusion) parser)
    (h : ∀ production, Readable (· = .inclusion) production →
      reading.Clears tree version levels (inner production)) :
    reading.Clears tree version levels (parser inner) := by
  induction hc with
  | inner production hr => exact h production hr
  | pure => exact .pure
  | bind _ _ ih ihn => exact .bind ih ihn
  | looking _ ih => exact fun state => ih (state.view reading.context) state
  | iterate _ ih => exact .iterate ih _
  | blockOpen _ ih => exact ih.blockOpen
  | failSyntax => exact .failSyntax
  | passOver => exact .passOver hf
  | report => exact .report rfl rfl
  | misread => exact .misread
  | overflows => exact fun _ _ _ _ hok => nomatch hok
  | place hk => exact .place (.inr hk)
  | blockItems ht | inScope ht | retagAngle ht | declare ht | setVersion ht | requireVersion3 ht
  | deprecated ht => cases ht

end

end Reading

end Grammar

end OpenQasm
