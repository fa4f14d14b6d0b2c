import Mathlib.Data.List.Nodup

/-!
# Doubly linked queues

A queue whose links are fields of its nodes: `prev` and `next` read them.
`Linked` says that the links run through a list of nodes both ways, between a
node before them and one after; a whole queue lies between two null nodes.

The operations are described by what the links read afterwards, so that a store
of nodes may carry them out in any way.
-/

namespace LinkedQueue

variable {α : Type}

/-- Both links run through the nodes, from `before` to `after`. -/
def Linked (prev next : α → α) : α → List α → α → Prop
  | _, [], _ => True
  | before, node :: rest, after =>
      prev node = before ∧ next node = rest.headD after ∧
        Linked prev next node rest after

variable {prev next prev' next' : α → α} {before after : α}
  {nodes front back : List α} {node : α}

theorem Linked.congr (linked : Linked prev next before nodes after)
    (samePrev : ∀ x ∈ nodes, prev' x = prev x)
    (sameNext : ∀ x ∈ nodes, next' x = next x) :
    Linked prev' next' before nodes after := by
  induction nodes generalizing before with
  | nil => trivial
  | cons node rest induction =>
      obtain ⟨back, forth, later⟩ := linked
      obtain ⟨prevHere, prevLater⟩ := List.forall_mem_cons.mp samePrev
      obtain ⟨nextHere, nextLater⟩ := List.forall_mem_cons.mp sameNext
      exact ⟨prevHere.trans back, nextHere.trans forth,
        induction later prevLater nextLater⟩

theorem linked_append :
    Linked prev next before (front ++ back) after ↔
      Linked prev next before front (back.headD after) ∧
        Linked prev next (front.getLastD before) back after := by
  induction front generalizing before with
  | nil => simp [Linked]
  | cons node rest induction =>
      rw [List.cons_append, Linked, Linked, induction, List.getLastD_cons]
      cases rest with
      | nil => simp [Linked, and_assoc]
      | cons second others => simp [and_assoc]

theorem headD_mem (nodes : List α) (node : α) :
    nodes.headD node = node ∨ nodes.headD node ∈ nodes := by
  cases nodes with
  | nil => exact Or.inl rfl
  | cons head tail => exact Or.inr List.mem_cons_self

theorem getLastD_mem (nodes : List α) (node : α) :
    nodes.getLastD node = node ∨ nodes.getLastD node ∈ nodes := by
  induction nodes generalizing node with
  | nil => exact Or.inl rfl
  | cons head tail induction =>
      rw [List.getLastD_cons]
      rcases induction head with same | inTail
      · rw [same]
        exact Or.inr List.mem_cons_self
      · exact Or.inr (List.mem_cons_of_mem head inTail)

theorem headD_mem_of_ne_nil (nonempty : nodes ≠ []) (node : α) :
    nodes.headD node ∈ nodes := by
  cases nodes with
  | nil => exact absurd rfl nonempty
  | cons head tail => exact List.mem_cons_self

theorem getLastD_mem_of_ne_nil (nonempty : nodes ≠ []) (node : α) :
    nodes.getLastD node ∈ nodes := by
  cases nodes with
  | nil => exact absurd rfl nonempty
  | cons head tail =>
      rw [List.getLastD_cons]
      rcases getLastD_mem tail head with same | inTail
      · rw [same]
        exact List.mem_cons_self
      · exact List.mem_cons_of_mem head inTail

theorem getLastD_append (front back : List α) (node : α) :
    (front ++ back).getLastD node = back.getLastD (front.getLastD node) := by
  induction front generalizing node with
  | nil => rfl
  | cons head tail induction =>
      rw [List.cons_append, List.getLastD_cons, induction, List.getLastD_cons]

/-- From the other end the two links change places. -/
theorem Linked.reverse (linked : Linked prev next before nodes after) :
    Linked next prev after nodes.reverse before := by
  induction nodes generalizing before with
  | nil => trivial
  | cons node rest induction =>
      obtain ⟨back, forth, later⟩ := linked
      rw [List.reverse_cons, linked_append]
      refine ⟨induction later, ?_, back, trivial⟩
      rw [forth, List.getLastD_eq_getLast?, List.getLast?_reverse,
        List.headD_eq_head?_getD]

/-- The links of a node in a queue lead to its neighbours. -/
theorem Linked.neighbours
    (linked : Linked prev next before (front ++ node :: back) after) :
    prev node = front.getLastD before ∧ next node = back.headD after := by
  obtain ⟨-, prevNode, nextNode, -⟩ := linked_append.mp linked
  exact ⟨prevNode, nextNode⟩

section Relink

variable [DecidableEq α]

/-- The first node gets another one before it. -/
theorem Linked.relink_before (linked : Linked prev next before nodes after)
    (distinct : nodes.Nodup) {before' : α}
    (prevs : ∀ x ∈ nodes,
      prev' x = if x = nodes.headD after then before' else prev x)
    (sameNext : ∀ x ∈ nodes, next' x = next x) :
    Linked prev' next' before' nodes after := by
  cases nodes with
  | nil => trivial
  | cons node rest =>
      obtain ⟨-, forth, later⟩ := linked
      obtain ⟨prevHere, prevLater⟩ := List.forall_mem_cons.mp prevs
      obtain ⟨nextHere, nextLater⟩ := List.forall_mem_cons.mp sameNext
      refine ⟨prevHere.trans (if_pos rfl), nextHere.trans forth,
        later.congr (fun x member => ?_) nextLater⟩
      refine (prevLater x member).trans (if_neg ?_)
      rintro rfl
      exact (List.nodup_cons.mp distinct).1 member

/-- The last node gets another one after it. -/
theorem Linked.relink_after (linked : Linked prev next before nodes after)
    (distinct : nodes.Nodup) {after' : α}
    (nexts : ∀ x ∈ nodes,
      next' x = if x = nodes.getLastD before then after' else next x)
    (samePrev : ∀ x ∈ nodes, prev' x = prev x) :
    Linked prev' next' before nodes after' := by
  induction nodes generalizing before with
  | nil => trivial
  | cons node rest induction =>
      obtain ⟨back, forth, later⟩ := linked
      obtain ⟨fresh, distinctRest⟩ := List.nodup_cons.mp distinct
      rw [List.getLastD_cons] at nexts
      obtain ⟨prevHere, prevLater⟩ := List.forall_mem_cons.mp samePrev
      obtain ⟨nextHere, nextLater⟩ := List.forall_mem_cons.mp nexts
      refine ⟨prevHere.trans back, nextHere.trans ?_,
        induction later distinctRest nextLater prevLater⟩
      cases rest with
      | nil => exact if_pos rfl
      | cons second others =>
          refine (if_neg fun isLast => fresh ?_).trans forth
          rw [isLast]
          exact getLastD_mem_of_ne_nil (List.cons_ne_nil second others) node

/-- A node joins at the back. -/
theorem Linked.push (linked : Linked prev next before nodes after)
    (distinct : nodes.Nodup)
    (nexts : ∀ x ∈ nodes,
      next' x = if x = nodes.getLastD before then node else next x)
    (samePrev : ∀ x ∈ nodes, prev' x = prev x)
    (prevNode : prev' node = nodes.getLastD before)
    (nextNode : next' node = after) :
    Linked prev' next' before (nodes ++ [node]) after :=
  linked_append.mpr
    ⟨linked.relink_after distinct nexts samePrev, prevNode, nextNode, trivial⟩

/-- A node leaves: its neighbours are linked to each other. -/
theorem Linked.unlink
    (linked : Linked prev next before (front ++ node :: back) after)
    (distinct : (front ++ node :: back).Nodup)
    (beforeOutside : before ∉ front ++ back)
    (afterOutside : after ∉ front ++ back)
    (prevs : ∀ x ∈ front ++ back,
      prev' x = if x = next node then prev node else prev x)
    (nexts : ∀ x ∈ front ++ back,
      next' x = if x = prev node then next node else next x) :
    Linked prev' next' before (front ++ back) after := by
  obtain ⟨prevNode, nextNode⟩ := linked.neighbours
  obtain ⟨inFront, -, -, inBack⟩ := linked_append.mp linked
  rw [List.nodup_append] at distinct
  obtain ⟨distinctFront, distinctBack, apart⟩ := distinct
  rw [prevNode, nextNode] at prevs nexts
  rw [List.mem_append, not_or] at beforeOutside afterOutside
  refine linked_append.mpr
    ⟨inFront.relink_after distinctFront
      (fun x member => nexts x (List.mem_append_left _ member))
      fun x member => ?_,
     inBack.relink_before (List.nodup_cons.mp distinctBack).2
      (fun x member => prevs x (List.mem_append_right _ member))
      fun x member => ?_⟩
  · refine (prevs x (List.mem_append_left _ member)).trans (if_neg ?_)
    rintro rfl
    rcases headD_mem back after with same | inside
    · exact afterOutside.1 (same ▸ member)
    · exact apart _ member _ (List.mem_cons_of_mem _ inside) rfl
  · refine (nexts x (List.mem_append_right _ member)).trans (if_neg ?_)
    rintro rfl
    rcases getLastD_mem front before with same | inside
    · exact beforeOutside.2 (same ▸ member)
    · exact apart _ inside _ (List.mem_cons_of_mem _ member) rfl

end Relink

end LinkedQueue
