import Mathlib.Data.List.Basic
import Mathlib.Data.List.Nodup

/-!
# Circular doubly linked lists

Nodes are linked by two pointers each, and a distinguished node closes the ring.
The order of the other nodes determines both pointers of every node, so that
taking a node out and putting one behind the head become operations on the
order.  A loop that follows one of the pointers until it meets the head visits
the order, forwards or backwards.
-/

namespace Xv6

namespace CircularList

open Function (update update_of_ne update_self)

variable {Node : Type*}

structure Links (Node : Type*) where
  next : Node → Node
  prev : Node → Node

/-- Following `next` from the head visits the order and comes back to the head,
and following `prev` goes the other way around. -/
structure Circular (links : Links Node) (head : Node) (order : List Node) : Prop where
  nodup : (head :: order).Nodup
  next : (head :: order).map links.next = order ++ [head]
  prev : (order ++ [head]).map links.prev = head :: order

/-- The loop `for (node = …; node != head; node = pointer(node))`, which stops at
the first node that is wanted. -/
def search [DecidableEq Node] (pointer : Node → Node) (head : Node) (wanted : Node → Bool) :
    Nat → Node → Option Node
  | 0, _ => none
  | fuel + 1, node =>
    if node = head then none
    else if wanted node then some node
    else search pointer head wanted fuel (pointer node)

section Search

variable [DecidableEq Node] {pointer : Node → Node} {head : Node} {wanted : Node → Bool}
  {links : Links Node} {order : List Node}

theorem search_eq {fuel : Nat} {node : Node} (outside : head ∉ order)
    (path : node :: order.map pointer = order ++ [head]) (enough : order.length < fuel) :
    search pointer head wanted fuel node = order.find? wanted := by
  induction order generalizing fuel node with
  | nil =>
    obtain ⟨rfl, -⟩ := List.cons.inj path
    obtain ⟨fuel, rfl⟩ := Nat.exists_eq_add_one.mpr enough
    rw [search, if_pos rfl]
    rfl
  | cons first order ih =>
    obtain ⟨rfl, rest⟩ := List.cons.inj path
    obtain ⟨fuel, rfl⟩ := Nat.exists_eq_add_one.mpr (Nat.zero_lt_of_lt enough)
    have notHead : node ≠ head := fun same => outside (same ▸ List.mem_cons_self)
    have later := ih (fun member => outside (List.mem_cons_of_mem _ member)) rest
      (Nat.lt_of_succ_lt_succ enough)
    rw [search, if_neg notHead, later, List.find?_cons]
    cases wanted node <;> rfl

/-- A loop over `next` finds the first node in the order. -/
theorem Circular.search_next (circular : Circular links head order) {fuel : Nat}
    (enough : order.length < fuel) :
    search links.next head wanted fuel (links.next head) = order.find? wanted :=
  search_eq (List.nodup_cons.mp circular.nodup).1 circular.next enough

theorem Circular.search_prev (circular : Circular links head order) {fuel : Nat}
    (enough : order.length < fuel) :
    search links.prev head wanted fuel (links.prev head) = order.reverse.find? wanted := by
  refine search_eq ?_ ?_ (by rwa [List.length_reverse])
  · rw [List.mem_reverse]
    exact (List.nodup_cons.mp circular.nodup).1
  · have path := congrArg List.reverse circular.prev
    rwa [List.map_append, List.reverse_append, List.map_singleton, List.reverse_singleton,
      ← List.map_reverse, List.reverse_cons, List.singleton_append] at path

end Search

section Surgery

variable [DecidableEq Node] {links : Links Node} {head node : Node} {order front back : List Node}

/-- The node is taken out: `b->next->prev = b->prev; b->prev->next = b->next`. -/
def Links.unlink (links : Links Node) (node : Node) : Links Node :=
  let prev := update links.prev (links.next node) (links.prev node)
  ⟨update links.next (prev node) (links.next node), prev⟩

/-- The node is put behind the head: `b->next = head.next; b->prev = head;
head.next->prev = b; head.next = b`. -/
def Links.push (links : Links Node) (head node : Node) : Links Node :=
  let next := update links.next node (links.next head)
  let prev := update links.prev node head
  ⟨update next head node, update prev (next head) node⟩

theorem map_update {pointer : Node → Node} {target : Node} {nodes : List Node}
    (outside : node ∉ nodes) :
    nodes.map (update pointer node target) = nodes.map pointer := by
  grind [List.map_congr_left, update_of_ne]

omit [DecidableEq Node] in
theorem Circular.nodup_snoc (circular : Circular links head order) : (order ++ [head]).Nodup :=
  (List.perm_append_singleton head order).nodup_iff.mpr circular.nodup

theorem Circular.unlink (circular : Circular links head (front ++ node :: back)) :
    Circular (links.unlink node) head (front ++ back) := by
  obtain ⟨before, last, isFront⟩ : ∃ before last, head :: front = before ++ [last] :=
    ⟨_, _, (List.dropLast_append_getLast (List.cons_ne_nil head front)).symm⟩
  obtain ⟨first, after, isBack⟩ : ∃ first after, back ++ [head] = first :: after := by
    cases back with
    | nil => exact ⟨head, [], rfl⟩
    | cons first back => exact ⟨first, back ++ [head], rfl⟩
  have sources : head :: (front ++ node :: back) = before ++ last :: node :: back := by
    rw [← List.cons_append, isFront, List.append_assoc, List.singleton_append]
  have targets : front ++ node :: back ++ [head] = front ++ node :: first :: after := by
    rw [List.append_assoc, List.cons_append, isBack]
  have sameLength : front.length = before.length := by
    have lengths := congrArg List.length isFront
    simpa using lengths
  -- the pointers of the three parts of the ring
  have next := circular.next
  have prev := circular.prev
  rw [sources, targets, List.map_append, List.map_cons, List.map_cons] at next
  rw [sources, targets, List.map_append, List.map_cons, List.map_cons] at prev
  obtain ⟨nextBefore, nextRest⟩ := List.append_inj next (by rw [List.length_map, sameLength])
  obtain ⟨prevFront, prevRest⟩ := List.append_inj prev (by rw [List.length_map, sameLength])
  obtain ⟨-, nextRest⟩ := List.cons.inj nextRest
  obtain ⟨nextNode, nextBack⟩ := List.cons.inj nextRest
  obtain ⟨prevNode, prevRest⟩ := List.cons.inj prevRest
  obtain ⟨-, prevAfter⟩ := List.cons.inj prevRest
  have distinctSources := circular.nodup
  have distinctTargets := circular.nodup_snoc
  rw [sources] at distinctSources
  rw [targets] at distinctTargets
  obtain ⟨-, nodupLast, apartLast⟩ := List.nodup_append.mp distinctSources
  obtain ⟨-, nodupNode, apartFirst⟩ := List.nodup_append.mp distinctTargets
  obtain ⟨lastNotBehind, -⟩ := List.nodup_cons.mp nodupLast
  obtain ⟨nodeNotBehind, nodupFirst⟩ := List.nodup_cons.mp nodupNode
  have lastNotBefore : last ∉ before := fun member =>
    apartLast last member last List.mem_cons_self rfl
  have firstNotFront : first ∉ front := fun member =>
    apartFirst first member first (List.mem_cons_of_mem _ List.mem_cons_self) rfl
  have unlinked : links.unlink node =
      ⟨update links.next last first, update links.prev first last⟩ := by
    have notFirst : node ≠ first := List.ne_of_not_mem_cons nodeNotBehind
    rw [Links.unlink, nextNode, prevNode, update_of_ne notFirst, prevNode]
  rw [unlinked]
  constructor
  case nodup =>
    refine circular.nodup.sublist ?_
    exact ((List.sublist_cons_self node back).append_left front).cons_cons head
  case next =>
    dsimp only
    rw [← List.cons_append, isFront, List.append_assoc, List.append_assoc, isBack, List.map_append,
      map_update lastNotBefore, nextBefore, List.singleton_append, List.map_cons,
      update_self, map_update (List.not_mem_of_not_mem_cons lastNotBehind), nextBack]
  case prev =>
    dsimp only
    rw [List.append_assoc, isBack, List.map_append, map_update firstNotFront, prevFront,
      List.map_cons, update_self, map_update (List.nodup_cons.mp nodupFirst).1, prevAfter,
      ← List.cons_append, isFront, List.append_assoc, List.singleton_append]

theorem Circular.push (circular : Circular links head order) (fresh : node ∉ head :: order) :
    Circular (links.push head node) head (node :: order) := by
  obtain ⟨first, after, isOrder⟩ : ∃ first after, order ++ [head] = first :: after := by
    cases order with
    | nil => exact ⟨head, [], rfl⟩
    | cons first order => exact ⟨first, order ++ [head], rfl⟩
  have notHead : node ≠ head := List.ne_of_not_mem_cons fresh
  have notOrder : node ∉ order := List.not_mem_of_not_mem_cons fresh
  have headNotOrder := (List.nodup_cons.mp circular.nodup).1
  have next := circular.next
  have prev := circular.prev
  rw [isOrder, List.map_cons] at next prev
  obtain ⟨nextHead, nextOrder⟩ := List.cons.inj next
  obtain ⟨prevFirst, prevAfter⟩ := List.cons.inj prev
  have nodup := circular.nodup_snoc
  have notAround : node ∉ first :: after := by
    grind
  rw [isOrder] at nodup
  have pushed : links.push head node =
      ⟨update (update links.next node first) head node,
        update (update links.prev node head) first node⟩ := by
    rw [Links.push, update_of_ne notHead.symm, nextHead]
  rw [pushed]
  constructor
  case nodup =>
    rw [List.nodup_cons, List.mem_cons, not_or, List.nodup_cons]
    exact ⟨⟨notHead.symm, headNotOrder⟩, notOrder, (List.nodup_cons.mp circular.nodup).2⟩
  case next =>
    dsimp only
    rw [List.map_cons, List.map_cons, update_self, update_of_ne notHead,
      update_self, map_update headNotOrder, map_update notOrder, nextOrder,
      List.cons_append, isOrder]
  case prev =>
    dsimp only
    rw [List.cons_append, isOrder, List.map_cons, List.map_cons,
      update_of_ne (List.ne_of_not_mem_cons notAround), update_self,
      update_self, map_update (List.nodup_cons.mp nodup).1,
      map_update (List.not_mem_of_not_mem_cons notAround), prevAfter]

/-- Nodes that are put in one after the other end up in reverse order. -/
theorem Circular.foldl_push {nodes : List Node} (circular : Circular links head order)
    (fresh : (nodes ++ head :: order).Nodup) :
    Circular (nodes.foldl (fun links node => links.push head node) links) head
      (nodes.reverse ++ order) := by
  induction nodes generalizing links order with
  | nil => exact circular
  | cons node nodes ih =>
    obtain ⟨outside, rest⟩ := List.nodup_cons.mp fresh
    have pushed := circular.push fun member => outside (List.mem_append_right nodes member)
    rw [List.foldl_cons, List.reverse_cons, List.append_assoc, List.singleton_append]
    apply ih pushed
    have moved : (nodes ++ head :: node :: order).Perm (node :: (nodes ++ head :: order)) := by
      grind
    exact moved.nodup_iff.mpr fresh

end Surgery

end CircularList

end Xv6
