import Mathlib.Logic.Relation
import OpenQasm.Proofs.Include.Order

/-!
# Paths through include graphs

Which sources a source leads to when some edges are cut, and what it means that no cycle is left
there. Orders of sources are lists; in one without repetitions, to stand before another source is
a strict order.
-/

namespace OpenQasm.IncludeGraph

/-! ## Orders of sources -/

/-- One source stands before another one in an order. -/
def Precedes (order : List SourceId) (first second : SourceId) : Prop :=
  ∃ front back, order = front ++ second :: back ∧ first ∈ front

section
variable {order more : List SourceId} {first second third : SourceId}

/-- In an order without repetitions, what precedes a source is what stands before it. -/
theorem precedes_iff {front back : List SourceId} (hn : order.Nodup)
    (ho : order = front ++ second :: back) : Precedes order first second ↔ first ∈ front := by
  constructor
  · rintro ⟨front', back', ho', hm⟩
    rw [ho] at ho' hn
    have hfront : ∀ {left right : List SourceId}, (left ++ second :: right).Nodup →
        (left ++ second :: right).idxOf second = left.length := fun {left right} hn => by
      have hnot : second ∉ left := fun hs =>
        (List.nodup_append.1 hn).2.2 second hs second List.mem_cons_self rfl
      rw [List.idxOf_append, if_neg hnot, List.idxOf_cons_self, Nat.zero_add]
    have hlength : front'.length = front.length := by
      rw [← hfront hn, ← hfront (ho' ▸ hn), ho']
    exact (List.append_inj ho' hlength.symm).1 ▸ hm
  · exact fun hm => ⟨front, back, ho, hm⟩

/-- What is preceded is in the order. -/
theorem Precedes.mem_right (h : Precedes order first second) : second ∈ order := by
  obtain ⟨front, back, rfl, -⟩ := h
  simp

/-- So is what precedes it. -/
theorem Precedes.mem_left (h : Precedes order first second) : first ∈ order := by
  obtain ⟨front, back, rfl, hm⟩ := h
  exact List.mem_append_left _ hm

/-- What is put at the front precedes all that is there. -/
theorem precedes_cons (hm : second ∈ order) : Precedes (first :: order) first second := by
  obtain ⟨front, back, rfl⟩ := List.append_of_mem hm
  exact ⟨first :: front, back, rfl, List.mem_cons_self⟩

/-- An entry more in front changes nothing. -/
theorem Precedes.cons (h : Precedes order first second) :
    Precedes (third :: order) first second := by
  obtain ⟨front, back, rfl, hm⟩ := h
  exact ⟨third :: front, back, rfl, List.mem_cons_of_mem _ hm⟩

/-- What grows at the front keeps its order. -/
theorem Precedes.of_suffix (h : Precedes order first second) (hs : order <:+ more) :
    Precedes more first second := by
  obtain ⟨front, back, rfl, hm⟩ := h
  obtain ⟨newer, rfl⟩ := hs
  exact ⟨newer ++ front, back, by rw [List.append_assoc], List.mem_append_right _ hm⟩

/-- In an order without repeats nothing precedes itself. -/
theorem Precedes.irrefl (hn : order.Nodup) : ¬Precedes order first first := by
  rintro ⟨front, back, rfl, hm⟩
  exact (List.nodup_append.1 hn).2.2 first hm first List.mem_cons_self rfl

/-- And what precedes something precedes what that precedes. -/
theorem Precedes.trans (hn : order.Nodup) (h : Precedes order first second)
    (h' : Precedes order second third) : Precedes order first third := by
  obtain ⟨front, back, rfl, hm⟩ := h'
  obtain ⟨left, right, rfl⟩ := List.append_of_mem hm
  have hsplit : left ++ second :: right ++ third :: back =
      left ++ second :: (right ++ third :: back) := by rw [List.append_assoc, List.cons_append]
  have hleft : first ∈ left := (precedes_iff hn hsplit).1 h
  exact ⟨left ++ second :: right, back, rfl, List.mem_append_left _ hleft⟩

end

/-! ## Paths -/

/-- A source includes another one by an edge outside `cut`. -/
def Follows (graph : IncludeGraph) (cut : List Nat) (file next : SourceId) : Prop :=
  ∃ index edge, graph.edge? index = some edge ∧ index ∉ cut ∧ edge.includer = file ∧
    edge.included = next

/-- A source leads to another one by edges outside `cut`. -/
def Reaches (graph : IncludeGraph) (cut : List Nat) : SourceId → SourceId → Prop :=
  Relation.ReflTransGen (graph.Follows cut)

/-- No source that `root` leads to by edges outside `cut` leads back to itself by such edges. -/
def AcyclicFrom (graph : IncludeGraph) (cut : List Nat) (root : SourceId) : Prop :=
  ∀ file, graph.Reaches cut root file → ¬Relation.TransGen (graph.Follows cut) file file

section
variable {graph : IncludeGraph} {cut : List Nat} {root file next : SourceId}

/-- The successors of a file are what follows it. -/
theorem mem_successors : next ∈ graph.successors cut file ↔ graph.Follows cut file next := by
  simp only [successors, List.mem_map, List.mem_filter, Prod.exists, mem_edgesFrom, Follows,
    Bool.not_eq_true', List.contains_eq_mem, decide_eq_false_iff_not]
  constructor
  · rintro ⟨index, edge, ⟨⟨he, hfile⟩, hcut⟩, hnext⟩
    exact ⟨index, edge, he, hcut, hfile, hnext⟩
  · rintro ⟨index, edge, he, hcut, hfile, hnext⟩
    exact ⟨index, edge, ⟨⟨he, hfile⟩, hcut⟩, hnext⟩

/-- An edge that is not cut is there without cutting. -/
theorem Follows.uncut (h : graph.Follows cut file next) : graph.Follows [] file next := by
  obtain ⟨index, edge, he, -, hends⟩ := h
  exact ⟨index, edge, he, List.not_mem_nil, hends⟩

/-- What is reached with edges cut is reached without. -/
theorem Reaches.uncut (h : graph.Reaches cut file next) : graph.Reaches [] file next :=
  Relation.ReflTransGen.mono (fun _ _ => Follows.uncut) _ _ h

/-- What follows in a closed graph is one of its files. -/
theorem mem_files_of_follows (h : graph.Closed) (hstep : graph.Follows cut file next) :
    next ∈ graph.files :=
  mem_files_of_mem_successors h (mem_successors.2 hstep)

end

/-! ## Building a graph -/

/-- A call that registers a source or an include statement. -/
inductive Registration
  | file (source : SourceId)
  | inclusion (edge : Inclusion)

def register (graph : IncludeGraph) : Registration → IncludeGraph
  | .file source => graph.addFile source
  | .inclusion edge => graph.addInclude edge

/-- The graph after a sequence of calls. -/
def built (calls : List Registration) : IncludeGraph := calls.foldl register {}

section
variable {graph : IncludeGraph} {file : SourceId} {edge : Inclusion}

/-- A closed graph stays so with a file more. -/
theorem Closed.addFile (h : graph.Closed) (file : SourceId) : (graph.addFile file).Closed where
  nodup := by
    unfold IncludeGraph.addFile
    split
    · exact h.nodup
    · next hnew =>
      have hnew : file ∉ graph.files := by simpa using hnew
      exact List.nodup_append.2 ⟨h.nodup, by simp, fun other ho new hm =>
        fun heq => hnew (List.mem_singleton.1 hm ▸ heq ▸ ho)⟩
  includer := fun edge he =>
    (mem_files_addFile ..).2 (.inl (h.includer edge (graph.addFile_edges file ▸ he)))
  included := fun edge he =>
    (mem_files_addFile ..).2 (.inl (h.included edge (graph.addFile_edges file ▸ he)))

/-- And with an edge more. -/
theorem Closed.addInclude (h : graph.Closed) (edge : Inclusion) :
    (graph.addInclude edge).Closed := by
  have hends := (h.addFile edge.includer).addFile edge.included
  refine ⟨hends.nodup, fun other ho => ?_, fun other ho => ?_⟩
  all_goals
    rw [IncludeGraph.addInclude, Array.toList_push, List.mem_append, List.mem_singleton] at ho
    obtain ho | rfl := ho
  · exact hends.includer other ho
  · exact (mem_files_addFile ..).2 (.inl ((mem_files_addFile ..).2 (.inr rfl)))
  · exact hends.included other ho
  · exact (mem_files_addFile ..).2 (.inr rfl)

/-- Whatever the calls, both ends of every edge are registered. -/
theorem closed_built (calls : List Registration) : (built calls).Closed := by
  refine List.foldlRecOn calls register ⟨.nil, nofun, nofun⟩ fun graph h call _ => ?_
  cases call with
  | file source => exact h.addFile source
  | inclusion edge => exact h.addInclude edge

end

end OpenQasm.IncludeGraph
