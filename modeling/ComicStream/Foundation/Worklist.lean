import Mathlib.Data.List.Nodup
import Mathlib.Data.List.Perm.Subperm
import Mathlib.Logic.Relation

/-!
# Recursive enumeration by a queue

A queue is worked off from its front: the node taken is emitted and its
children are appended. Nothing remembers which nodes were met before, so on a
graph with a cycle the queue never empties, and a node with two parents is
emitted twice. On a forest every node below the start is emitted exactly once.
-/

namespace ComicStream.Worklist

variable {Node : Type*}

/-- The nodes emitted until the queue is empty, or nothing when the fuel runs out before. -/
def emit (children : Node → List Node) : ℕ → List Node → Option (List Node)
  | _, [] => some []
  | 0, _ :: _ => none
  | fuel + 1, node :: queue => (emit children fuel (queue ++ children node)).map (node :: ·)

/-- Reachable through children, in any number of steps. -/
abbrev Below (children : Node → List Node) : Node → Node → Prop :=
  Relation.ReflTransGen fun parent child ↦ child ∈ children parent

/-- A finite forest: children are one rank further from the root, and nobody is the child of two
parents or twice the child of one. -/
structure IsForest (children : Node → List Node) (rank : Node → ℕ) (nodes : List Node) : Prop where
  rank_child : ∀ parent child, child ∈ children parent → rank child = rank parent + 1
  unique_parent : ∀ first second child, child ∈ children first → child ∈ children second →
    first = second
  nodup_children : ∀ parent, (children parent).Nodup
  child_mem : ∀ parent child, child ∈ children parent → child ∈ nodes

/-- What has been emitted and what is queued, at any point of an enumeration from `start`. -/
structure Progress (children : Node → List Node) (nodes : List Node) (start : Node)
    (done queue : List Node) : Prop where
  nodup : (done ++ queue).Nodup
  subset : done ++ queue ⊆ nodes
  start_mem : start ∈ done ++ queue
  below : ∀ node ∈ done ++ queue, Below children start node
  parent_done : ∀ node ∈ done ++ queue, node = start ∨ ∃ parent ∈ done, node ∈ children parent
  closed : ∀ parent ∈ done, children parent ⊆ done ++ queue

variable {children : Node → List Node} {rank : Node → ℕ} {nodes : List Node}

theorem IsForest.rank_le (h : IsForest children rank nodes) {start node : Node}
    (hbelow : Below children start node) : rank start ≤ rank node := by
  induction hbelow with
  | refl => exact Nat.le_refl _
  | tail _ hchild ih =>
    rw [h.rank_child _ _ hchild]
    exact Nat.le_succ_of_le ih

/-- The child relation of a forest is acyclic. -/
theorem IsForest.not_below_of_child (h : IsForest children rank nodes) {parent child : Node}
    (hchild : child ∈ children parent) : ¬Below children child parent := by
  intro hbelow
  have hle := h.rank_le hbelow
  rw [h.rank_child _ _ hchild] at hle
  exact absurd hle (Nat.not_succ_le_self _)

variable {start node : Node} {done queue : List Node}

theorem Progress.take (hforest : IsForest children rank nodes)
    (h : Progress children nodes start done (node :: queue)) :
    Progress children nodes start (done ++ [node]) (queue ++ children node) := by
  have hold : (done ++ [node]) ++ (queue ++ children node) =
      (done ++ node :: queue) ++ children node := by simp
  have hnode : node ∈ done ++ node :: queue := by simp
  have hbelow := h.below node hnode
  have hfresh (child : Node) (hchild : child ∈ children node) : child ∉ done ++ node :: queue := by
    intro hmem
    rcases h.parent_done child hmem with rfl | ⟨parent, hparent, hother⟩
    · exact hforest.not_below_of_child hchild hbelow
    · rw [hforest.unique_parent _ _ _ hother hchild] at hparent
      exact (List.disjoint_of_nodup_append h.nodup) hparent List.mem_cons_self
  constructor
  · rw [hold, List.nodup_append']
    exact ⟨h.nodup, hforest.nodup_children node, fun child hmem hchild ↦ hfresh child hchild hmem⟩
  · rw [hold]
    exact List.append_subset.mpr ⟨h.subset, fun child hchild ↦ hforest.child_mem _ _ hchild⟩
  · rw [hold]
    exact List.mem_append_left _ h.start_mem
  · rw [hold]
    intro other hother
    rcases List.mem_append.mp hother with hother | hother
    · exact h.below other hother
    · exact hbelow.tail hother
  · rw [hold]
    intro other hother
    rcases List.mem_append.mp hother with hother | hother
    · rcases h.parent_done other hother with hstart | ⟨parent, hparent, hchild⟩
      · exact .inl hstart
      · exact .inr ⟨parent, List.mem_append_left _ hparent, hchild⟩
    · exact .inr ⟨node, by simp, hother⟩
  · rw [hold]
    intro parent hparent
    rcases List.mem_append.mp hparent with hparent | hparent
    · exact List.subset_append_of_subset_left _ (h.closed parent hparent)
    · rw [List.mem_singleton.mp hparent]
      exact List.subset_append_right _ _

/-- As long as nodes are left over, the enumeration runs to its end. -/
theorem Progress.emit (hforest : IsForest children rank nodes) {fuel : ℕ}
    (h : Progress children nodes start done queue) (hfuel : nodes.length ≤ done.length + fuel) :
    ∃ rest, Worklist.emit children fuel queue = some rest ∧
      Progress children nodes start (done ++ rest) [] := by
  induction fuel generalizing done queue with
  | zero =>
    cases queue with
    | nil => exact ⟨[], rfl, by simpa using h⟩
    | cons node queue =>
      have hlength := (List.subperm_of_subset h.nodup h.subset).length_le
      simp only [List.length_append, List.length_cons] at hlength
      omega
  | succ fuel ih =>
    cases queue with
    | nil => exact ⟨[], rfl, by simpa using h⟩
    | cons node queue =>
      obtain ⟨rest, hrest, hprogress⟩ := ih (h.take hforest) (by
        rw [List.length_append, List.length_singleton]
        omega)
      refine ⟨node :: rest, by rw [Worklist.emit, hrest, Option.map_some], ?_⟩
      simpa using hprogress

/-- **Enumeration of a forest.** With fuel for every node, the queue empties, and the nodes
emitted are exactly those below the start, each of them once. -/
theorem emit_of_isForest (hforest : IsForest children rank nodes) (hstart : start ∈ nodes) :
    ∃ emitted, emit children nodes.length [start] = some emitted ∧ emitted.Nodup ∧
      ∀ node, node ∈ emitted ↔ Below children start node := by
  have hinit : Progress children nodes start [] [start] := by
    constructor
    · exact List.nodup_singleton start
    · simpa using hstart
    · simp
    · intro node hnode
      rw [List.nil_append, List.mem_singleton] at hnode
      rw [hnode]
    · intro node hnode
      exact .inl (by simpa using hnode)
    · simp
  have hfuel : nodes.length ≤ ([] : List Node).length + nodes.length := by simp
  obtain ⟨emitted, hemit, hprogress⟩ := hinit.emit hforest hfuel
  rw [List.nil_append] at hprogress
  refine ⟨emitted, hemit, by simpa using hprogress.nodup, fun node ↦ ⟨?_, ?_⟩⟩
  · intro hnode
    exact hprogress.below node (by simpa using hnode)
  · intro hbelow
    induction hbelow with
    | refl => simpa using hprogress.start_mem
    | tail _ hchild ih => simpa using hprogress.closed _ ih hchild

theorem IsForest.of_perm (h : IsForest children rank nodes) {other : Node → List Node}
    (hperm : ∀ node, (other node).Perm (children node)) : IsForest other rank nodes where
  rank_child parent child hchild := h.rank_child parent child ((hperm parent).mem_iff.mp hchild)
  unique_parent first second child hfirst hsecond :=
    h.unique_parent first second child ((hperm first).mem_iff.mp hfirst)
      ((hperm second).mem_iff.mp hsecond)
  nodup_children parent := (hperm parent).nodup_iff.mpr (h.nodup_children parent)
  child_mem parent child hchild := h.child_mem parent child ((hperm parent).mem_iff.mp hchild)

section View

variable {Other : Type*} {view : Node → Other} {others : Other → List Other} {isNode : Node → Prop}

theorem forall_of_emit {fuel : ℕ} {queue emitted : List Node}
    (hchild : ∀ node, isNode node → ∀ child ∈ children node, isNode child)
    (hqueue : ∀ node ∈ queue, isNode node) (h : emit children fuel queue = some emitted) :
    ∀ node ∈ emitted, isNode node := by
  induction fuel generalizing queue emitted with
  | zero =>
    cases queue with
    | nil => simp [← Option.some.inj h]
    | cons node queue => simp [emit] at h
  | succ fuel ih =>
    cases queue with
    | nil => simp [← Option.some.inj h]
    | cons node queue =>
      rw [List.forall_mem_cons] at hqueue
      obtain ⟨rest, hrest, rfl⟩ := Option.map_eq_some_iff.mp h
      refine List.forall_mem_cons.mpr ⟨hqueue.1, ih (fun other hother ↦ ?_) hrest⟩
      rcases List.mem_append.mp hother with hother | hother
      · exact hqueue.2 other hother
      · exact hchild node hqueue.1 other hother

theorem emit_map {fuel : ℕ} {queue : List Node}
    (hchild : ∀ node, isNode node → ∀ child ∈ children node, isNode child)
    (hview : ∀ node, isNode node → others (view node) = (children node).map view)
    (hqueue : ∀ node ∈ queue, isNode node) :
    emit others fuel (queue.map view) = (emit children fuel queue).map (List.map view) := by
  induction fuel generalizing queue with
  | zero => cases queue <;> rfl
  | succ fuel ih =>
    cases queue with
    | nil => rfl
    | cons node queue =>
      rw [List.forall_mem_cons] at hqueue
      have hnext : ∀ other ∈ queue ++ children node, isNode other := by
        intro other hother
        rcases List.mem_append.mp hother with hother | hother
        · exact hqueue.2 other hother
        · exact hchild node hqueue.1 other hother
      rw [List.map_cons, emit, emit, hview node hqueue.1, ← List.map_append, ih hnext,
        Option.map_map, Option.map_map]
      rfl

end View

end ComicStream.Worklist
